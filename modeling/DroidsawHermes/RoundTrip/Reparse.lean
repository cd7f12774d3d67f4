-- SUMMARY: The output of emit parses back to an equivalent file, and emit is a fixpoint there.
import DroidsawHermes.Parser.BodyView
import DroidsawHermes.RoundTrip.Equiv

/-!
# Reparsing the output of emit

Emit changes at most two header words, the file length and an unused bigint
storage size. Neither takes part in the form detection, the count gates or the
section plan, and the body past the header is the same, so the output parses to
the same file but for these two fields.
-/

open Bytes

namespace Hermes

/-! ## Headers that differ in the two words -/

/-- The header with another file length and, where it has one, bigint storage size. -/
def HbcHeader.withSizes (header : HbcHeader) (fileLength bigIntStorageSize : Nat) : HbcHeader :=
  match header with
  | .preV84 h => .preV84 { h with fileLength := fileLength }
  | .v84to86 h => .v84to86 { h with fileLength := fileLength }
  | .v87to96 h =>
    .v87to96 { h with fileLength := fileLength, bigIntStorageSize := bigIntStorageSize }
  | .v97toV98Early h =>
    .v97toV98Early { h with fileLength := fileLength, bigIntStorageSize := bigIntStorageSize }
  | .v98LateToV99 h =>
    .v98LateToV99 { h with fileLength := fileLength, bigIntStorageSize := bigIntStorageSize }

section WithSizes

variable (header : HbcHeader) (l s : Nat)

@[simp] theorem HbcHeader.withSizes_layout : (header.withSizes l s).layout = header.layout := by
  cases header <;> rfl

@[simp] theorem HbcHeader.withSizes_version : (header.withSizes l s).version = header.version := by
  cases header <;> rfl

@[simp] theorem HbcHeader.withSizes_functionCount :
    (header.withSizes l s).functionCount = header.functionCount := by
  cases header <;> rfl

@[simp] theorem HbcHeader.withSizes_stringKindCount :
    (header.withSizes l s).stringKindCount = header.stringKindCount := by
  cases header <;> rfl

@[simp] theorem HbcHeader.withSizes_identifierCount :
    (header.withSizes l s).identifierCount = header.identifierCount := by
  cases header <;> rfl

@[simp] theorem HbcHeader.withSizes_stringCount :
    (header.withSizes l s).stringCount = header.stringCount := by
  cases header <;> rfl

@[simp] theorem HbcHeader.withSizes_overflowStringCount :
    (header.withSizes l s).overflowStringCount = header.overflowStringCount := by
  cases header <;> rfl

@[simp] theorem HbcHeader.withSizes_stringStorageSize :
    (header.withSizes l s).stringStorageSize = header.stringStorageSize := by
  cases header <;> rfl

@[simp] theorem HbcHeader.withSizes_regExpCount :
    (header.withSizes l s).regExpCount = header.regExpCount := by
  cases header <;> rfl

@[simp] theorem HbcHeader.withSizes_regExpStorageSize :
    (header.withSizes l s).regExpStorageSize = header.regExpStorageSize := by
  cases header <;> rfl

@[simp] theorem HbcHeader.withSizes_arrayBufferSize :
    (header.withSizes l s).arrayBufferSize = header.arrayBufferSize := by
  cases header <;> rfl

@[simp] theorem HbcHeader.withSizes_objKeyBufferSize :
    (header.withSizes l s).objKeyBufferSize = header.objKeyBufferSize := by
  cases header <;> rfl

@[simp] theorem HbcHeader.withSizes_objValueBufferSize :
    (header.withSizes l s).objValueBufferSize = header.objValueBufferSize := by
  cases header <;> rfl

@[simp] theorem HbcHeader.withSizes_objShapeTableCount :
    (header.withSizes l s).objShapeTableCount = header.objShapeTableCount := by
  cases header <;> rfl

@[simp] theorem HbcHeader.withSizes_bigIntCount :
    (header.withSizes l s).bigIntCount = header.bigIntCount := by
  cases header <;> rfl

@[simp] theorem HbcHeader.withSizes_cjsModuleCount :
    (header.withSizes l s).cjsModuleCount = header.cjsModuleCount := by
  cases header <;> rfl

@[simp] theorem HbcHeader.withSizes_functionSourceCount :
    (header.withSizes l s).functionSourceCount = header.functionSourceCount := by
  cases header <;> rfl

@[simp] theorem HbcHeader.withSizes_debugInfoOffset :
    (header.withSizes l s).debugInfoOffset = header.debugInfoOffset := by
  cases header <;> rfl

theorem HbcHeader.withSizes_bigIntStorageSize (h : header.layout.hasBigIntPair = true) :
    (header.withSizes l s).bigIntStorageSize = s := by
  cases header <;> first | rfl | cases h

end WithSizes

/-- The count gates do not look at the two sizes. -/
theorem countGates_withSizes (header : HbcHeader) (l s : Nat) :
    countGates (header.withSizes l s) = countGates header := by
  simp [countGates]

/-- The plan looks at the bigint storage size of a file with bigints only. -/
theorem sectionPlan_withSizes {header : HbcHeader} {l s : Nat}
    (hsize : header.layout.hasBigIntPair = true → header.bigIntCount ≠ 0 →
      s = header.bigIntStorageSize) :
    sectionPlan (header.withSizes l s) = sectionPlan header := by
  simp only [sectionPlan, HbcHeader.withSizes_functionCount, HbcHeader.withSizes_layout,
    HbcHeader.withSizes_stringKindCount, HbcHeader.withSizes_identifierCount,
    HbcHeader.withSizes_stringCount, HbcHeader.withSizes_overflowStringCount,
    HbcHeader.withSizes_stringStorageSize, HbcHeader.withSizes_arrayBufferSize,
    HbcHeader.withSizes_objKeyBufferSize, HbcHeader.withSizes_objValueBufferSize,
    HbcHeader.withSizes_objShapeTableCount, HbcHeader.withSizes_bigIntCount,
    HbcHeader.withSizes_regExpCount, HbcHeader.withSizes_regExpStorageSize,
    HbcHeader.withSizes_cjsModuleCount, HbcHeader.withSizes_functionSourceCount]
  congr 3
  by_cases hbig : header.layout.hasBigIntPair = true ∧ header.bigIntCount > 0
  · rw [if_pos hbig, if_pos hbig, HbcHeader.withSizes_bigIntStorageSize _ _ _ hbig.1,
      hsize hbig.1 (by omega)]
  · rw [if_neg hbig, if_neg hbig]

/-! ## The header of the output -/

/-- Two buffers that differ in the words at 32 and 68 only. -/
structure SameButSizes (a b : List UInt8) : Prop where
  agree : AgreeFrom headerSize a b
  slice_eq : ∀ {i j : Nat}, j ≤ 32 ∨ (36 ≤ i ∧ j ≤ 68) ∨ 72 ≤ i → slice a i j = slice b i j

namespace SameButSizes

variable {a b : List UInt8}

theorem readU32 (h : SameButSizes a b) (hlen : headerSize ≤ a.length) {k : Nat} (hk : k ≤ 124)
    (hword : k + 4 ≤ 32 ∨ (36 ≤ k ∧ k + 4 ≤ 68) ∨ 72 ≤ k) :
    Hermes.readU32 a k = Hermes.readU32 b k := by
  have hlen' := hlen
  rw [h.agree.length_eq] at hlen'
  simp only [headerSize] at hlen hlen'
  rw [readU32_eq_ofLE (by omega), readU32_eq_ofLE (by omega), h.slice_eq hword]

theorem getElem? (h : SameButSizes a b) {k : Nat} (hk : 72 ≤ k) : a[k]? = b[k]? := by
  have hs := congrArg (fun l => l[0]?) (h.slice_eq (i := k) (j := k + 1) (.inr (.inr hk)))
  simp only [getElem?_slice] at hs
  simpa using hs

theorem detectLateV98Form (h : SameButSizes a b) (hlen : headerSize ≤ a.length) :
    Hermes.detectLateV98Form a = Hermes.detectLateV98Form b := by
  have hget : ∀ {k : Nat}, 72 ≤ k → a.getD k 0 = b.getD k 0 := by
    intro k hk
    simp only [List.getD_eq_getElem?_getD, h.getElem? hk]
  simp only [Hermes.detectLateV98Form, disambiguateBothOptionsValid, bytecodeOptionsEarly,
    bytecodeOptionsLate, h.getElem? (k := 108) (by decide), h.getElem? (k := 112) (by decide),
    hget (k := 108) (by decide), hget (k := 112) (by decide), h.agree.length_eq,
    h.readU32 hlen (k := 108) (by decide) (by decide),
    h.readU32 hlen (k := 104) (by decide) (by decide),
    h.readU32 hlen (k := 40) (by decide) (by decide), Nat.reduceAdd]

/-- The header of the other buffer, where the word at 68 is the same unless it is
an unused bigint storage size. -/
theorem headerOf (h : SameButSizes a b) (hlen : headerSize ≤ a.length) {header : HbcHeader}
    (hof : HeaderOf a header)
    (hbig : header.layout.hasBigIntPair = false → Hermes.readU32 a 68 = Hermes.readU32 b 68) :
    HeaderOf b (header.withSizes (Hermes.readU32 b 32) (Hermes.readU32 b 68)) := by
  have hversion := h.readU32 hlen (k := 8) (by decide) (by decide)
  have hform := h.detectLateV98Form hlen
  have hw : ∀ {k : Nat}, k ≤ 124 → (36 ≤ k ∧ k + 4 ≤ 68) ∨ 72 ≤ k →
      Hermes.readU32 a k = Hermes.readU32 b k := fun hk hword => h.readU32 hlen hk (.inr hword)
  have hearly : ∀ v, (HbcHeader.v97toV98Early (parseV97toV98Early a v)).withSizes
      (Hermes.readU32 b 32) (Hermes.readU32 b 68) =
        .v97toV98Early (parseV97toV98Early b v) := by
    intro v
    simp only [HbcHeader.withSizes, parseV97toV98Early, hw, Nat.reduceLeDiff, Nat.reduceAdd,
      and_self, true_or, or_true]
  have hlate : ∀ v, (HbcHeader.v98LateToV99 (parseV98LateToV99 a v)).withSizes
      (Hermes.readU32 b 32) (Hermes.readU32 b 68) =
        .v98LateToV99 (parseV98LateToV99 b v) := by
    intro v
    simp only [HbcHeader.withSizes, parseV98LateToV99, hw, Nat.reduceLeDiff, Nat.reduceAdd,
      and_self, true_or, or_true]
  cases hof with
  | preV84 hlo hhi =>
    have heq : (HbcHeader.preV84 (parsePreV84 a (Hermes.readU32 a 8))).withSizes
        (Hermes.readU32 b 32) (Hermes.readU32 b 68) =
          .preV84 (parsePreV84 b (Hermes.readU32 b 8)) := by
      simp only [HbcHeader.withSizes, parsePreV84, hversion, hbig rfl, hw, Nat.reduceLeDiff,
        Nat.reduceAdd, and_self, true_or, or_true]
    rw [heq]
    exact .preV84 (by omega) (by omega)
  | v84to86 hlo hhi =>
    have heq : (HbcHeader.v84to86 (parseV84to86 a (Hermes.readU32 a 8))).withSizes
        (Hermes.readU32 b 32) (Hermes.readU32 b 68) =
          .v84to86 (parseV84to86 b (Hermes.readU32 b 8)) := by
      simp only [HbcHeader.withSizes, parseV84to86, hversion, hbig rfl, hw, Nat.reduceLeDiff,
        Nat.reduceAdd, and_self, true_or, or_true]
    rw [heq]
    exact .v84to86 (by omega) (by omega)
  | v87to96 hlo hhi =>
    have heq : (HbcHeader.v87to96 (parseV87to96 a (Hermes.readU32 a 8))).withSizes
        (Hermes.readU32 b 32) (Hermes.readU32 b 68) =
          .v87to96 (parseV87to96 b (Hermes.readU32 b 8)) := by
      simp only [HbcHeader.withSizes, parseV87to96, hversion, hw, Nat.reduceLeDiff,
        Nat.reduceAdd, and_self, true_or, or_true]
    rw [heq]
    exact .v87to96 (by omega) (by omega)
  | v97 hv =>
    rw [hearly]
    exact .v97 (by omega)
  | v98Early hv hearlyForm =>
    rw [hearly]
    exact .v98Early (by omega) (by rw [← hform]; exact hearlyForm)
  | v98Late hv hlateForm =>
    rw [hlate]
    exact .v98Late (by omega) (by rw [← hform]; exact hlateForm)
  | v99 hlo hhi =>
    rw [hlate, hversion]
    exact .v99 (by omega) (by omega)

end SameButSizes

/-! ## The output of emit -/

variable {boundCount : BoundCount} {buf : List UInt8} {f : HbcFile} {w : SectionWalk}
  {dbg : Option DebugInfoV96}

theorem sameButSizes_transparentOutput (hlen : headerSize ≤ buf.length) :
    SameButSizes buf (transparentOutput f buf) := by
  obtain ⟨h32, h68⟩ := transparentOutput_bounds (f := f) hlen
  have hbig := length_bigIntWord (f := f) hlen
  constructor
  · refine ⟨(length_transparentOutput hlen).symm, ?_⟩
    rw [transparentOutput, drop_splice h68 (by rw [hbig]; decide),
      drop_splice h32 (by rw [length_leBytes]; decide)]
  · intro i j hij
    rw [transparentOutput, slice_splice h68 (by rw [hbig]; omega),
      slice_splice h32 (by rw [length_leBytes]; omega)]

/-! ## The parse of the output -/

/-- A file whose header bytes were overwritten at 32 and 68. -/
def HbcFile.rewrite (f : HbcFile) (out : List UInt8) : HbcFile :=
  { f with
    buf := out
    header := f.header.withSizes (readU32 out 32) (readU32 out 68) }

theorem decodeStringKinds_congr {a b : List UInt8} (h : AgreeFrom headerSize a b) {start : Nat}
    (hstart : headerSize ≤ start) (version n : Nat) : ∀ i map idx,
      decodeStringKinds a version start n i map idx =
        decodeStringKinds b version start n i map idx := by
  induction n with
  | zero =>
    intro i map idx
    rfl
  | succ n ih =>
    intro i map idx
    have hge : headerSize ≤ start + i * 4 := by omega
    simp only [decodeStringKinds, h.get?_eq hge, ih]

namespace ParseTrace

/-- The walk puts the string kinds past the header. -/
theorem stringKinds_ge (t : ParseTrace boundCount buf f w dbg) :
    headerSize ≤ (w.span .stringKinds).start := by
  exact t.done.placed.start_ge _
    (t.done.span_required (sectionPlan_stringKinds f.header)).1 (by simp)

/-- The file before the selection, with the other header bytes. -/
theorem sameBody_buildFile (t : ParseTrace boundCount buf f w dbg) {out : List UInt8}
    (hagree : AgreeFrom headerSize buf out) (l s : Nat) :
    (buildFile buf f.header w dbg).SameBody (buildFile out (f.header.withSizes l s) w dbg) where
  agree := hagree
  layout := (HbcHeader.withSizes_layout _ _ _).symm
  version := (HbcHeader.withSizes_version _ _ _).symm
  functionCount := (HbcHeader.withSizes_functionCount _ _ _).symm
  funcHeaders := rfl
  smallStringTable := rfl
  overflowStringTable := rfl
  regexpTable := rfl
  objShapeTable := rfl
  bytecodeRegion := by
    simp only [buildFile, HbcHeader.withSizes_debugInfoOffset, hagree.length_eq]
  largeHeaderLayout := rfl
  start_ge := by
    have hstart := t.funcHeaders_span
    rw [t.funcHeaders_eq] at hstart
    simp [buildFile, hstart, headerSize]

theorem selectedFile_rewrite (t : ParseTrace boundCount buf f w dbg) {out : List UInt8}
    (hagree : AgreeFrom headerSize buf out) (l s : Nat) :
    selectedFile out (f.header.withSizes l s) w dbg =
      { selectedFile buf f.header w dbg with
        buf := out
        header := f.header.withSizes l s } := by
  have hlayout := (t.sameBody_buildFile hagree l s).selectedLargeHeaderLayout
  simp only [selectedFile, HbcFile.selectV98LargeHeaderLayout, ← hlayout]
  simp only [buildFile, HbcHeader.withSizes_version, HbcHeader.withSizes_stringKindCount,
    HbcHeader.withSizes_stringCount, HbcHeader.withSizes_debugInfoOffset, hagree.length_eq,
    decodeStringKinds_congr hagree t.stringKinds_ge]

/-- The parsed file with the other header bytes. -/
theorem sameBody_rewrite (t : ParseTrace boundCount buf f w dbg) {out : List UInt8}
    (hagree : AgreeFrom headerSize buf out) : f.SameBody (f.rewrite out) where
  agree := by
    rw [t.buf_eq]
    exact hagree
  layout := (HbcHeader.withSizes_layout _ _ _).symm
  version := (HbcHeader.withSizes_version _ _ _).symm
  functionCount := (HbcHeader.withSizes_functionCount _ _ _).symm
  funcHeaders := rfl
  smallStringTable := rfl
  overflowStringTable := rfl
  regexpTable := rfl
  objShapeTable := rfl
  bytecodeRegion := rfl
  largeHeaderLayout := rfl
  start_ge := by
    rw [t.funcHeaders_span]
    exact Nat.le_refl _

/-- A buffer that differs from an accepted one in the two size words parses, with
its own values there. -/
theorem rewrite (t : ParseTrace boundCount buf f w dbg) {out : List UInt8}
    (hout : SameButSizes buf out) (hmarks : f.unrecognizedFunctions = [])
    (hbig : ¬ f.DropsBigIntSize → readU32 buf 68 = readU32 out 68) :
    ParseTrace boundCount out (f.rewrite out) w dbg := by
  have hagree := hout.agree
  have hlen := t.length_ge
  have hplan : sectionPlan (f.rewrite out).header = sectionPlan f.header := by
    apply sectionPlan_withSizes
    intro hpair hcount
    rw [← hbig fun h => hcount h.2]
    exact (t.headerOf.bigIntStorageSize hpair).symm
  refine { header_ok := ?_, overflow_le := ?_, gates_ok := ?_, walk_ok := ?_, debug_ok := ?_,
           file_eq := ?_, validated := ?_ }
  · obtain ⟨-, hmagic, hof⟩ := parseHbcHeader_eq_ok.mp t.header_ok
    refine parseHbcHeader_eq_ok.mpr ⟨by rw [← hagree.length_eq]; exact hlen, ?_, ?_⟩
    · rw [← hout.slice_eq (.inl (by decide))]
      exact hmagic
    · apply hout.headerOf hlen hof
      intro hpair
      apply hbig
      rintro ⟨hpair', -⟩
      rw [hpair] at hpair'
      cases hpair'
  · simpa [HbcFile.rewrite] using t.overflow_le
  · rw [HbcFile.rewrite, countGates_withSizes, ← hagree.length_eq]
    exact t.gates_ok
  · rw [walkSections, hplan, ← hagree.length_eq]
    exact t.walk_ok
  · simp only [HbcFile.rewrite, HbcHeader.withSizes_debugInfoOffset, HbcHeader.withSizes_version,
      ← debugInfoV96Parse_congr hagree]
    exact t.debug_ok
  · have hselected := t.selectedFile_rewrite hagree (readU32 out 32) (readU32 out 68)
    simp only [HbcFile.rewrite] at hselected ⊢
    rw [hselected]
    exact congrArg (fun x : HbcFile =>
      { x with buf := out, header := f.header.withSizes (readU32 out 32) (readU32 out 68) })
      t.file_eq
  · have hvalid := t.validated
    rw [hmarks] at hvalid
    have h := (t.sameBody_rewrite hagree).validateFunctionRegions (fun i hi => t.entry_le hi) hvalid
    rw [h]
    exact congrArg Except.ok hmarks.symm

end ParseTrace

/-! ## The equivalence of the two files -/

/-- No compared range of the header holds a size word. -/
theorem passthroughRanges_beside (V : HbcVersion) (f : HbcFile) :
    ∀ r ∈ V.passthroughRanges f, r.2 ≤ 32 ∨ (36 ≤ r.1 ∧ r.2 ≤ 68) ∨ 72 ≤ r.1 := by
  cases V with
  | v84 | v96 | v99 =>
    simp only [HbcVersion.passthroughRanges]
    decide
  | v98 =>
    simp only [HbcVersion.passthroughRanges]
    cases f.header.layout.useV99FuncHeader <;> decide

namespace ParseTrace

/-- The sections past the header start past it. -/
theorem section_start_ge (t : ParseTrace boundCount buf f w dbg) :
    ∀ e ∈ f.sections.tail, headerSize ≤ e.span.start := by
  have hordered := t.done.placed.ordered
  rw [← t.sections_eq] at hordered
  obtain ⟨rest, hrest⟩ := t.sections_leading
  rw [hrest] at hordered ⊢
  intro e he
  exact ((List.pairwise_cons.mp hordered).1 e he).1

/-- Without marks the validation trusts every function. -/
theorem trusted_of_no_marks (t : ParseTrace boundCount buf f w dbg)
    (hmarks : f.unrecognizedFunctions = []) {i : Nat} (hi : i < f.functionCount) :
    f.Trusted i := by
  by_contra hnot
  obtain ⟨u, hu, -⟩ := (t.validated_marks.marks_iff i).mpr ⟨hi, fun h => hnot h.1⟩
  rw [hmarks] at hu
  cases hu

theorem fingerprint_rewrite (t : ParseTrace boundCount buf f w dbg) {out : List UInt8}
    (hout : SameButSizes buf out) (hmarks : f.unrecognizedFunctions = [])
    (tg : ParseTrace boundCount out (f.rewrite out) w dbg) {V : HbcVersion}
    (hv : f.version = V.version) : f.fingerprint V = (f.rewrite out).fingerprint V := by
  have hbody := t.sameBody_rewrite hout.agree
  have hvg : (f.rewrite out).version = V.version := by
    rw [← hbody.version]
    exact hv
  have hcounts : f.primaryCounts = (f.rewrite out).primaryCounts := by
    simp [HbcFile.primaryCounts, HbcFile.rewrite, HbcFile.functionCount, HbcFile.stringCount]
  have hflags : f.layoutFlags = (f.rewrite out).layoutFlags := by
    simp [HbcFile.layoutFlags, HbcFile.rewrite]
  have hcontents : f.contents = (f.rewrite out).contents := by
    simp only [HbcFile.contents, HbcFile.rewrite]
    rw [List.map_inj_left]
    intro e he
    simp only [sectionBytes, t.buf_eq]
    exact hout.agree.slice_eq (t.section_start_ge e he)
  have hpass : (V.passthroughRanges f).map (fun r => slice f.buf r.1 r.2) =
      (V.passthroughRanges (f.rewrite out)).map fun r => slice (f.rewrite out).buf r.1 r.2 := by
    have hranges : V.passthroughRanges (f.rewrite out) = V.passthroughRanges f := by
      cases V <;> simp [HbcVersion.passthroughRanges, HbcFile.rewrite]
    rw [hranges, List.map_inj_left]
    intro r hr
    rw [t.buf_eq]
    exact hout.slice_eq (passthroughRanges_beside V f r hr)
  have hmetadata : trustedMetadata V.overflowedAdversarial f =
      trustedMetadata V.overflowedAdversarial (f.rewrite out) := by
    simp only [trustedMetadata, ← hbody.functionCount]
    rw [List.map_inj_left]
    intro i hi
    have hi := List.mem_range.mp hi
    rw [overflowedAdversarial_congr t tg hv hvg hbody.functionCount (fun _ => hflags) rfl hcontents hi,
      hbody.functionGet_of_checked (t.trusted_of_no_marks hmarks hi).checked]
  simp only [HbcFile.fingerprint, hcounts, hflags, hcontents, hpass, hmetadata, hbody.version]
  rfl

end ParseTrace

/-! ## The round trip -/

/-- A pipeline that ends well saw no marks and a length that fits a word. -/
theorem emitSections_ok {f : HbcFile} {reason : String}
    {emitHeader : List UInt8 → Nat → Except HermesEmitError (List UInt8)}
    {emitFunctionHeaders : Except HermesEmitError (List UInt8)} {extra : ExtraTable}
    {out : List UInt8}
    (h : emitSections f reason emitHeader emitFunctionHeaders extra = .ok out) :
    f.unrecognizedFunctions = [] ∧ f.buf.length ≤ u32Max := by
  simp only [emitSections, Loop.bind_eq_ok] at h
  obtain ⟨_, hreject, h⟩ := h
  have hmarks : f.unrecognizedFunctions = [] := by
    by_contra hne
    simp [rejectIfUnrecognized, hne] at hreject
  split at h
  · cases h
  · obtain ⟨n, hlen, -⟩ := Loop.bind_eq_ok.mp h
    simp only [fileLengthU32] at hlen
    split at hlen
    · cases hlen
    · exact ⟨hmarks, by omega⟩

theorem HbcVersion.emit_ok {V : HbcVersion} {f : HbcFile} {out : List UInt8}
    (h : V.emit f = .ok out) : f.unrecognizedFunctions = [] ∧ f.buf.length ≤ u32Max := by
  cases V with
  | v84 | v96 =>
    simp only [HbcVersion.emit, emitHbcV84, emitHbc] at h
    split at h
    · cases h
    · exact emitSections_ok h
  | v98 | v99 =>
    simp only [HbcVersion.emit, emitHbcV98, emitHbcV99, emitHbcV98OrV99] at h
    split at h
    · cases h
    · obtain ⟨_, -, h⟩ := Loop.bind_eq_ok.mp h
      exact emitSections_ok h

/-- The word at 68 of the output, unless it is an unused bigint storage size. -/
theorem readU32_transparentOutput (hlen : headerSize ≤ buf.length) (hkeep : ¬ f.DropsBigIntSize) :
    readU32 buf 68 = readU32 (transparentOutput f buf) 68 := by
  have hlen' := hlen
  rw [← length_transparentOutput (f := f) hlen] at hlen'
  have hword := slice_transparentOutput_bigInt (f := f) hlen
  rw [bigIntWord, if_neg hkeep] at hword
  simp only [headerSize] at hlen hlen'
  rw [readU32_eq_ofLE (by omega), readU32_eq_ofLE (by omega), hword]

/-- Rewriting the output once more changes nothing. -/
theorem transparentOutput_fixpoint (hlen : headerSize ≤ buf.length) :
    transparentOutput (f.rewrite (transparentOutput f buf)) (transparentOutput f buf) =
      transparentOutput f buf := by
  have hlenOut := length_transparentOutput (f := f) hlen
  have hlen128 : 128 ≤ (transparentOutput f buf).length := by
    rw [hlenOut]
    exact hlen
  have hbig : bigIntWord (f.rewrite (transparentOutput f buf)) (transparentOutput f buf) =
      slice (transparentOutput f buf) 68 72 := by
    have hdrops : (f.rewrite (transparentOutput f buf)).DropsBigIntSize ↔ f.DropsBigIntSize := by
      simp [HbcFile.DropsBigIntSize, HbcFile.rewrite]
    rw [slice_transparentOutput_bigInt hlen]
    simp only [bigIntWord, hdrops]
    split
    · rfl
    · rename_i hkeep
      rw [slice_transparentOutput_bigInt hlen, bigIntWord, if_neg hkeep]
  rw [transparentOutput.eq_1 (f.rewrite _), hbig, hlenOut, ← slice_transparentOutput_length hlen,
    splice_slice (by decide) (by omega), splice_slice (by decide) (by omega)]

/-- What a pipeline writes parses to an equivalent file without marks and with
the same large-header layout, and that file is written as the same bytes. -/
theorem emit_round_trip {V : HbcVersion} (spec : boundCount.Spec)
    (hparse : parse boundCount buf = .ok f) (hv : f.version = V.version) {out : List UInt8}
    (hemit : V.emit f = .ok out) :
    ∃ g, parse boundCount out = .ok g ∧ g.unrecognizedFunctions = [] ∧
      g.largeHeaderLayout = f.largeHeaderLayout ∧ V.emit g = .ok out ∧
      ∃ hg : g.version = V.version,
        HbcFileEquiv.eq (V := V) ⟨f, hv⟩ ⟨g, hg⟩ = true := by
  obtain ⟨w, dbg, t⟩ := parse_eq_ok.mp hparse
  have hlen := t.length_ge
  obtain ⟨hmarks, hmax⟩ := HbcVersion.emit_ok hemit
  rw [t.buf_eq] at hmax
  rw [HbcVersion.emit_eq t spec hmax hmarks hv, rewrittenHeader_append hlen] at hemit
  cases hemit
  have hout := sameButSizes_transparentOutput (f := f) hlen
  have tg := t.rewrite hout hmarks fun hkeep => readU32_transparentOutput hlen hkeep
  have hvg : (f.rewrite (transparentOutput f buf)).version = V.version := by
    rw [← (t.sameBody_rewrite hout.agree).version]
    exact hv
  refine ⟨f.rewrite (transparentOutput f buf), parse_eq_ok.mpr ⟨w, dbg, tg⟩, hmarks, rfl, ?_, hvg, ?_⟩
  · rw [HbcVersion.emit_eq tg spec (by rw [length_transparentOutput hlen]; exact hmax) hmarks hvg,
      rewrittenHeader_append tg.length_ge, transparentOutput_fixpoint hlen]
  · rw [HbcFileEquiv.eq_def]
    exact (fileEquiv_iff t tg hv hvg).mpr (t.fingerprint_rewrite hout hmarks tg hv)

theorem emit_round_trip_sample : ∃ f g out, parse checkedBoundCount sampleShapeBuffer = .ok f ∧
    emitHbcV99 f = .ok out ∧ parse checkedBoundCount out = .ok g ∧ emitHbcV99 g = .ok out ∧
    fileEquivV99 f g = true := by
  obtain ⟨f, hparse, hcheck⟩ := Loop.exists_of_okAnd
    (x := parse checkedBoundCount sampleShapeBuffer)
    (p := fun f => decide (f.version = 99) && Loop.okAnd (emitHbcV99 f) fun _ => true)
    (by decide +kernel)
  simp only [Bool.and_eq_true, decide_eq_true_eq] at hcheck
  obtain ⟨hv, hok⟩ := hcheck
  obtain ⟨out, hemit, -⟩ := Loop.exists_of_okAnd hok
  obtain ⟨g, hreparse, -, -, hfix, _, heq⟩ :=
    emit_round_trip (V := .v99) checkedBoundCount_spec hparse hv hemit
  exact ⟨f, g, out, hparse, hemit, hreparse, hfix, heq⟩

end Hermes
