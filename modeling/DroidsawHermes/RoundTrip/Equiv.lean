-- SUMMARY: The round-trip comparison of two files of one version, and that it is an equivalence: it compares a fingerprint.
import DroidsawHermes.Emit.Transparent

/-!
# Round-trip equivalence

`HbcFileEquiv` of `parser/round_trip.rs`. The four `PartialEq` instances share
one body: counts, section names, sizes and contents, the opaque ranges of the
header, and the metadata of the functions whose large header cannot lie in the
file header. On accepted files the comparison is equality of a fingerprint, so
the functions it skips are the same on both sides.
-/

open Bytes

namespace Hermes

/-- A file under the tag of its version; `HbcFileEquiv::new` checks it. -/
structure HbcFileEquiv (V : HbcVersion) where
  file : HbcFile
  version_eq : file.version = V.version

/-! ## Parts of the comparison -/

/-- The primary header counts, and the debug-info offset. -/
def HbcFile.primaryCounts (f : HbcFile) : List Nat :=
  [f.functionCount, f.stringCount, f.header.overflowStringCount, f.header.stringStorageSize,
    f.header.cjsModuleCount, f.header.regExpCount, f.header.bigIntCount,
    f.header.objShapeTableCount, f.header.debugInfoOffset]

/-- `use_v99_func_header` and `has_num_string_switch_imms`. -/
def HbcFile.layoutFlags (f : HbcFile) : Bool × Bool :=
  (f.header.layout.useV99FuncHeader, f.header.layout.hasNumStringSwitchImms)

/-- Names and sizes, one section after the other; offsets are free. -/
def sectionShapesEquiv (a b : List SectionEntry) : Bool :=
  a.length = b.length &&
    (a.zip b).all fun s => s.1.name = s.2.name && s.1.span.size = s.2.span.size

def sectionContentEquiv (a b : List UInt8) (sa sb : SectionEntry) : Bool :=
  match get? a sa.span.start (saturatingAddU64 sa.span.start sa.span.size),
      get? b sb.span.start (saturatingAddU64 sb.span.start sb.span.size) with
  | some x, some y => x = y
  | _, _ => false

/-- Section contents from the section at `idx` on, each side at its own offset.
The header is not compared here. -/
def sectionContentsEquiv (a b : List UInt8) : Nat → List (SectionEntry × SectionEntry) → Bool
  | _, [] => true
  | idx, (sa, sb) :: rest =>
    (decide (idx = 0 ∧ sa.name = .header) || sectionContentEquiv a b sa sb) &&
      sectionContentsEquiv a b (idx + 1) rest

/-- The ranges of the header that emit copies. -/
def headerPassthroughEquiv (ranges : List (Nat × Nat)) (a b : List UInt8) : Bool :=
  if a.length < 128 ∨ b.length < 128 then a = b
  else ranges.all fun r =>
    match get? a r.1 r.2, get? b r.1 r.2 with
    | some x, some y => x = y
    | _, _ => false

def v84HeaderPassthroughRanges : List (Nat × Nat) := [(12, 32), (36, 40), (84, 88), (100, 128)]

def v96HeaderPassthroughRanges : List (Nat × Nat) := [(12, 32), (36, 40), (92, 96), (108, 128)]

def v98HeaderPassthroughRanges (useV99Header : Bool) : List (Nat × Nat) :=
  if useV99Header then [(12, 32), (36, 40), (96, 100), (112, 128)]
  else [(12, 32), (36, 40), (92, 96), (108, 128)]

/-- An overflowed function whose large header starts inside the file header. -/
def overflowedAdversarialV96 (f : HbcFile) (i : Nat) : Bool :=
  match f.rawSmallFuncHeaderV96 i with
  | some raw =>
    let overflowed : Bool := (raw.rawFlagsByte.toNat >>> 5) &&& 1 ≠ 0
    let largeOff := (raw.rawInfoOffset <<< 16) ||| raw.rawOffset
    overflowed && largeOff < 128
  | none => false

def overflowedAdversarialV98 (f : HbcFile) (i : Nat) : Bool :=
  match f.rawSmallFuncHeaderV98 i with
  | some raw =>
    let (overflowed, largeOff) := raw.overflowedAndLargeOff
    overflowed && largeOff < 128
  | none => false

/-- The metadata of every function of the left file that is not skipped. -/
def functionMetadataEquiv (adversarial : HbcFile → Nat → Bool) (a b : HbcFile) : Bool :=
  (List.range a.functionCount).all fun i =>
    let fa := a.functionGet i
    let fb := b.functionGet i
    adversarial a i ||
      (fa.offset = fb.offset && fa.size = fb.size && fa.nameId = fb.nameId &&
        fa.paramCount = fb.paramCount && fa.flags = fb.flags && fa.frameSize = fb.frameSize)

/-! ## The comparison -/

/-- The body of `PartialEq::eq`, with the parts that differ by version. -/
def fileEquiv (V : HbcVersion) (compareLayout : Bool) (ranges : List (Nat × Nat))
    (adversarial : HbcFile → Nat → Bool) (a b : HbcFile) : Bool :=
  decide (a.version = b.version ∧ a.version = V.version)
    && decide (a.primaryCounts = b.primaryCounts)
    && (!compareLayout || decide (a.layoutFlags = b.layoutFlags))
    && sectionShapesEquiv a.sections b.sections
    && sectionContentsEquiv a.buf b.buf 0 (a.sections.zip b.sections)
    && headerPassthroughEquiv ranges a.buf b.buf
    && functionMetadataEquiv adversarial a b

def fileEquivV84 (a b : HbcFile) : Bool :=
  fileEquiv .v84 false v84HeaderPassthroughRanges overflowedAdversarialV96 a b

def fileEquivV96 (a b : HbcFile) : Bool :=
  fileEquiv .v96 false v96HeaderPassthroughRanges overflowedAdversarialV96 a b

def fileEquivV98 (a b : HbcFile) : Bool :=
  fileEquiv .v98 true (v98HeaderPassthroughRanges a.header.layout.useV99FuncHeader)
    overflowedAdversarialV98 a b

def fileEquivV99 (a b : HbcFile) : Bool :=
  fileEquiv .v99 true (v98HeaderPassthroughRanges true) overflowedAdversarialV98 a b

/-- `PartialEq for HbcFileEquiv<V>`. -/
def HbcFileEquiv.eq {V : HbcVersion} (a b : HbcFileEquiv V) : Bool :=
  match V with
  | .v84 => fileEquivV84 a.file b.file
  | .v96 => fileEquivV96 a.file b.file
  | .v98 => fileEquivV98 a.file b.file
  | .v99 => fileEquivV99 a.file b.file

/-- An accepted file under its tag. -/
structure AcceptedFile (boundCount : BoundCount) (V : HbcVersion) extends HbcFileEquiv V where
  buf : List UInt8
  accepted : parse boundCount buf = .ok file

/-! ## Section lists -/

def sectionShape (e : SectionEntry) : SectionName × Nat := (e.name, e.span.size)

def sectionBytes (buf : List UInt8) (e : SectionEntry) : List UInt8 :=
  slice buf e.span.start e.span.stop

theorem sectionShapesEquiv_iff {a b : List SectionEntry} :
    sectionShapesEquiv a b = true ↔ a.map sectionShape = b.map sectionShape := by
  induction a generalizing b with
  | nil => cases b <;> simp [sectionShapesEquiv]
  | cons sa a ih =>
    cases b with
    | nil => simp [sectionShapesEquiv]
    | cons sb b =>
      have ih := ih (b := b)
      simp only [sectionShapesEquiv, Bool.and_eq_true, decide_eq_true_eq] at ih
      simp only [sectionShapesEquiv, List.length_cons, List.zip_cons_cons, List.all_cons,
        List.map_cons, List.cons.injEq, sectionShape, Prod.mk.injEq, Bool.and_eq_true,
        decide_eq_true_eq, Nat.add_right_cancel_iff] at ih ⊢
      rw [← ih]
      tauto

/-- A section that lies in the buffer, at a position a 32-bit cursor can have. -/
def SectionFits (buf : List UInt8) (e : SectionEntry) : Prop :=
  e.span.stop ≤ buf.length ∧ e.span.stop ≤ u32Max

theorem sectionContentEquiv_iff {a b : List UInt8} {sa sb : SectionEntry} (ha : SectionFits a sa)
    (hb : SectionFits b sb) :
    sectionContentEquiv a b sa sb = true ↔ sectionBytes a sa = sectionBytes b sb := by
  have hsat : ∀ {buf : List UInt8} {e : SectionEntry}, SectionFits buf e →
      get? buf e.span.start (saturatingAddU64 e.span.start e.span.size) =
        some (sectionBytes buf e) := by
    rintro buf e ⟨hle, hcursor⟩
    have hstop : saturatingAddU64 e.span.start e.span.size = e.span.stop := by
      simp only [saturatingAddU64, Span.stop, u64Max, u32Max] at *
      omega
    rw [hstop]
    exact get?_of_le (by simp [Span.stop]) hle
  simp only [sectionContentEquiv, hsat ha, hsat hb, decide_eq_true_eq]

theorem sectionContentsEquiv_succ_iff {a b : List UInt8} {xs ys : List SectionEntry} :
    ∀ idx : Nat, xs.length = ys.length → (∀ e ∈ xs, SectionFits a e) →
      (∀ e ∈ ys, SectionFits b e) →
      (sectionContentsEquiv a b (idx + 1) (xs.zip ys) = true ↔
        xs.map (sectionBytes a) = ys.map (sectionBytes b)) := by
  induction xs generalizing ys with
  | nil =>
    intro idx hlen _ _
    cases ys with
    | nil => simp [sectionContentsEquiv]
    | cons => simp at hlen
  | cons sa xs ih =>
    intro idx hlen hxs hys
    cases ys with
    | nil => simp at hlen
    | cons sb ys =>
      have hhead := sectionContentEquiv_iff (hxs sa List.mem_cons_self) (hys sb List.mem_cons_self)
      have htail := ih (idx + 1) (by simpa using hlen)
        (fun e he => hxs e (List.mem_cons_of_mem _ he)) (fun e he => hys e (List.mem_cons_of_mem _ he))
      simp only [List.zip_cons_cons, sectionContentsEquiv, Bool.and_eq_true, Bool.or_eq_true,
        decide_eq_true_eq, Nat.add_one_ne_zero, false_and, false_or, hhead, htail, List.map_cons,
        List.cons.injEq]

/-- The header ranges, compared. -/
theorem headerPassthroughEquiv_iff {ranges : List (Nat × Nat)} {a b : List UInt8}
    (ha : headerSize ≤ a.length) (hb : headerSize ≤ b.length)
    (hranges : ∀ r ∈ ranges, r.1 ≤ r.2 ∧ r.2 ≤ 128) :
    headerPassthroughEquiv ranges a b = true ↔
      ranges.map (fun r => slice a r.1 r.2) = ranges.map (fun r => slice b r.1 r.2) := by
  simp only [headerSize] at ha hb
  have hlen : ¬ (a.length < 128 ∨ b.length < 128) := by omega
  simp only [headerPassthroughEquiv, hlen, if_false, List.all_eq_true, List.map_inj_left]
  apply forall₂_congr
  intro r hr
  obtain ⟨hle, hend⟩ := hranges r hr
  rw [get?_of_le hle (by omega), get?_of_le hle (by omega)]
  simp only [decide_eq_true_eq]

/-- The metadata that the comparison looks at. -/
def trustedMetadata (adversarial : HbcFile → Nat → Bool) (f : HbcFile) :
    List (Option FunctionData) :=
  (List.range f.functionCount).map fun i =>
    if adversarial f i then none else some (f.functionGet i)

theorem functionMetadataEquiv_iff {adversarial : HbcFile → Nat → Bool} {a b : HbcFile}
    (hcount : a.functionCount = b.functionCount)
    (hadv : ∀ i < a.functionCount, adversarial a i = adversarial b i) :
    functionMetadataEquiv adversarial a b = true ↔
      trustedMetadata adversarial a = trustedMetadata adversarial b := by
  simp only [functionMetadataEquiv, trustedMetadata, ← hcount, List.all_eq_true, List.map_inj_left]
  apply forall₂_congr
  intro i hi
  rw [← hadv i (List.mem_range.mp hi)]
  cases adversarial a i with
  | true => simp
  | false =>
    obtain ⟨na, pa, oa, sa, fa, ra⟩ := a.functionGet i
    obtain ⟨nb, pb, ob, sb, fb, rb⟩ := b.functionGet i
    simp only [Bool.false_or, Bool.and_eq_true, decide_eq_true_eq, Bool.false_eq_true, if_false,
      Option.some.injEq, FunctionData.mk.injEq]
    tauto

/-! ## The sections of an accepted file -/

namespace ParseTrace

variable {boundCount : BoundCount} {buf : List UInt8} {f : HbcFile} {w : SectionWalk}
  {dbg : Option DebugInfoV96}

/-- The section list starts with the header and the function headers. -/
theorem sections_leading (t : ParseTrace boundCount buf f w dbg) : ∃ rest,
    f.sections = ⟨.header, ⟨0, 128⟩⟩ :: ⟨.functionHeaders, f.funcHeaders⟩ :: rest := by
  have h := t.walk_ok
  simp only [walkSections, sectionPlan, List.cons_append] at h
  obtain ⟨added, hadded⟩ := SectionWalk.sections_prefix (SectionWalk.foldlM_required h)
  refine ⟨added, ?_⟩
  rw [t.sections_eq, hadded, t.funcHeaders_span]
  rfl

theorem section_fits (t : ParseTrace boundCount buf f w dbg) :
    ∀ e ∈ f.sections, SectionFits f.buf e := by
  intro e he
  rw [t.sections_eq] at he
  have hplaced := t.done.placed
  have hcursor := hplaced.stop_le_cursor e he
  rw [t.buf_eq]
  exact ⟨hplaced.stop_le_bufLen e he, Nat.le_trans hcursor hplaced.cursor_le⟩

end ParseTrace

/-- The contents of the sections past the header. -/
def HbcFile.contents (f : HbcFile) : List (List UInt8) := f.sections.tail.map (sectionBytes f.buf)

variable {boundCount : BoundCount} {bufA bufB : List UInt8} {a b : HbcFile}
  {wA wB : SectionWalk} {dbgA dbgB : Option DebugInfoV96}

theorem sectionContentsEquiv_iff (ta : ParseTrace boundCount bufA a wA dbgA)
    (tb : ParseTrace boundCount bufB b wB dbgB)
    (hshapes : a.sections.map sectionShape = b.sections.map sectionShape) :
    sectionContentsEquiv a.buf b.buf 0 (a.sections.zip b.sections) = true ↔
      a.contents = b.contents := by
  have hlen : a.sections.length = b.sections.length := by
    simpa using congrArg List.length hshapes
  have hfitA := ta.section_fits
  have hfitB := tb.section_fits
  obtain ⟨restA, hA⟩ := ta.sections_leading
  obtain ⟨restB, hB⟩ := tb.sections_leading
  rw [hA] at hfitA hlen
  rw [hB] at hfitB hlen
  have htail := sectionContentsEquiv_succ_iff 0 (Nat.succ.inj hlen)
    (fun e he => hfitA e (List.mem_cons_of_mem _ he))
    (fun e he => hfitB e (List.mem_cons_of_mem _ he))
  rw [HbcFile.contents, HbcFile.contents, hA, hB, List.zip_cons_cons, List.tail_cons,
    List.tail_cons, ← htail, sectionContentsEquiv]
  simp

/-- Files with the same section shapes and contents have the same small headers. -/
theorem funcHeaders_slice_eq (ta : ParseTrace boundCount bufA a wA dbgA)
    (tb : ParseTrace boundCount bufB b wB dbgB)
    (hshapes : a.sections.map sectionShape = b.sections.map sectionShape)
    (hcontents : a.contents = b.contents) :
    slice a.buf 128 (128 + a.funcHeaders.size) = slice b.buf 128 (128 + a.funcHeaders.size) := by
  obtain ⟨restA, hA⟩ := ta.sections_leading
  obtain ⟨restB, hB⟩ := tb.sections_leading
  rw [hA, hB] at hshapes
  rw [HbcFile.contents, HbcFile.contents, hA, hB] at hcontents
  simp only [List.map_cons, List.cons.injEq, sectionShape, Prod.mk.injEq] at hshapes
  simp only [List.tail_cons, List.map_cons, List.cons.injEq, sectionBytes, Span.stop] at hcontents
  have hsize : b.funcHeaders.size = a.funcHeaders.size := hshapes.2.1.2.symm
  have hbytes := hcontents.1
  rw [hsize] at hbytes
  have hstartA : a.funcHeaders.start = 128 := by rw [ta.funcHeaders_span]
  have hstartB : b.funcHeaders.start = 128 := by rw [tb.funcHeaders_span]
  rw [hstartA, hstartB] at hbytes
  exact hbytes

/-- The bytes of one small header. -/
theorem get?_entry_eq (ta : ParseTrace boundCount bufA a wA dbgA)
    (tb : ParseTrace boundCount bufB b wB dbgB)
    (hshapes : a.sections.map sectionShape = b.sections.map sectionShape)
    (hcontents : a.contents = b.contents) (hcount : a.functionCount = b.functionCount)
    (hsize : a.funcHeaderSize = b.funcHeaderSize) {i : Nat} (hi : i < a.functionCount) :
    get? a.buf (a.entryOff i) (a.entryOff i + a.funcHeaderSize) =
      get? b.buf (b.entryOff i) (b.entryOff i + b.funcHeaderSize) := by
  have hle := ta.entry_le hi
  have hi' : i < b.functionCount := by omega
  have hle' := tb.entry_le hi'
  have hbytes := funcHeaders_slice_eq ta tb hshapes hcontents
  have hoff : a.entryOff i = b.entryOff i := by
    simp only [HbcFile.entryOff, ta.funcHeaders_span, tb.funcHeaders_span, hsize]
  rw [get?_of_le (by omega) hle, get?_of_le (by omega) hle', ← hoff, ← hsize]
  have hmul : (i + 1) * a.funcHeaderSize ≤ a.functionCount * a.funcHeaderSize :=
    Nat.mul_le_mul_right _ hi
  rw [Nat.succ_mul] at hmul
  simp only [ta.funcHeaders_span] at hbytes
  refine congrArg some (slice_eq_of_slice_eq hbytes ?_ ?_)
  · simp only [HbcFile.entryOff, ta.funcHeaders_span]
    omega
  · simp only [HbcFile.entryOff, ta.funcHeaders_span]
    omega

/-! ## The functions that are skipped -/

/-- Whether the comparison of a version looks at the layout flags. -/
def HbcVersion.compareLayout : HbcVersion → Bool
  | .v84 | .v96 => false
  | .v98 | .v99 => true

def HbcVersion.passthroughRanges : HbcVersion → HbcFile → List (Nat × Nat)
  | .v84, _ => v84HeaderPassthroughRanges
  | .v96, _ => v96HeaderPassthroughRanges
  | .v98, f => v98HeaderPassthroughRanges f.header.layout.useV99FuncHeader
  | .v99, _ => v98HeaderPassthroughRanges true

def HbcVersion.overflowedAdversarial : HbcVersion → HbcFile → Nat → Bool
  | .v84 | .v96 => overflowedAdversarialV96
  | .v98 | .v99 => overflowedAdversarialV98

theorem HbcFileEquiv.eq_def {V : HbcVersion} (a b : HbcFileEquiv V) :
    a.eq b = fileEquiv V V.compareLayout (V.passthroughRanges a.file) V.overflowedAdversarial
      a.file b.file := by
  cases V <;> rfl

/-- The version and the flags that its comparison looks at fix the layout, and
from v98 on the header variant with its version word. -/
theorem layout_cases (t : ParseTrace boundCount bufA a wA dbgA) {V : HbcVersion}
    (hv : a.version = V.version) :
    (V.compareLayout = false ∧ a.funcHeaderSize = 16 ∧
      a.header.layout = if V = .v84 then .v84to86 else .v87to96) ∨
    (V.compareLayout = true ∧ a.funcHeaderSize = 12 ∧ V98Layout a) := by
  cases V with
  | v84 =>
    have hlayout : a.header.layout = .v84to86 := by rw [t.headerOf.eq_v84to86 hv]; rfl
    exact .inl ⟨rfl, by rw [HbcFile.funcHeaderSize, hlayout]; rfl, hlayout⟩
  | v96 =>
    have hlayout : a.header.layout = .v87to96 := by rw [t.headerOf.eq_v87to96 hv]; rfl
    exact .inl ⟨rfl, by rw [HbcFile.funcHeaderSize, hlayout]; rfl, hlayout⟩
  | v98 | v99 =>
    have hv' : a.version = 98 ∨ a.version = 99 := by simp [hv, HbcVersion.version]
    obtain ⟨hlayout, hsize⟩ := t.v98Layout hv'
    exact .inr ⟨rfl, hsize, hlayout⟩

/-- The comparison skips the same functions of the two files. -/
theorem overflowedAdversarial_congr (ta : ParseTrace boundCount bufA a wA dbgA)
    (tb : ParseTrace boundCount bufB b wB dbgB) {V : HbcVersion} (hva : a.version = V.version)
    (hvb : b.version = V.version) (hcount : a.functionCount = b.functionCount)
    (hflags : V.compareLayout = true → a.layoutFlags = b.layoutFlags)
    (hshapes : a.sections.map sectionShape = b.sections.map sectionShape)
    (hcontents : a.contents = b.contents) {i : Nat} (hi : i < a.functionCount) :
    V.overflowedAdversarial a i = V.overflowedAdversarial b i := by
  have hi' : i < b.functionCount := by omega
  have hnoA : ¬ i ≥ a.functionCount := by omega
  have hnoB : ¬ i ≥ b.functionCount := by omega
  rcases layout_cases ta hva with ⟨hcmp, hsizeA, hlayoutA⟩ | ⟨hcmp, hsizeA, hlayoutA⟩
  · obtain ⟨-, hsizeB, hlayoutB⟩ : _ ∧ b.funcHeaderSize = 16 ∧ _ := by
      rcases layout_cases tb hvb with h | ⟨h, -⟩
      · exact h
      · simp [hcmp] at h
    have hentry := get?_entry_eq ta tb hshapes hcontents hcount (by rw [hsizeA, hsizeB]) hi
    simp only [HbcFile.entryOff, hsizeA, hsizeB] at hentry
    have hraw : a.rawSmallFuncHeaderV96 i = b.rawSmallFuncHeaderV96 i := by
      simp only [HbcFile.rawSmallFuncHeaderV96, hlayoutA, hlayoutB]
      split <;> simp only [hnoA, hnoB, if_false, hentry]
    cases V <;> simp [HbcVersion.compareLayout] at hcmp <;>
      simp only [HbcVersion.overflowedAdversarial, overflowedAdversarialV96, hraw]
  · obtain ⟨-, hsizeB, hlayoutB⟩ : _ ∧ b.funcHeaderSize = 12 ∧ _ := by
      rcases layout_cases tb hvb with ⟨h, -⟩ | h
      · simp [hcmp] at h
      · exact h
    have hentry := get?_entry_eq ta tb hshapes hcontents hcount (by rw [hsizeA, hsizeB]) hi
    simp only [HbcFile.entryOff, hsizeA, hsizeB] at hentry
    have hflags := hflags hcmp
    have hraw : a.rawSmallFuncHeaderV98 i = b.rawSmallFuncHeaderV98 i := by
      rcases hlayoutA with ⟨ha, hhA, hA⟩ | ⟨ha, hhA, hA⟩ <;>
        rcases hlayoutB with ⟨hb, hhB, hB⟩ | ⟨hb, hhB, hB⟩
      · simp only [HbcFile.rawSmallFuncHeaderV98, hhA, hhB, hA, hB, HbcFile.rawEntryV98, hnoA, hnoB,
          if_false, hentry]
      · simp [HbcFile.layoutFlags, hhA, hhB, HbcHeader.layout, HeaderLayout.useV99FuncHeader]
          at hflags
      · simp [HbcFile.layoutFlags, hhA, hhB, HbcHeader.layout, HeaderLayout.useV99FuncHeader]
          at hflags
      · simp only [HbcFile.rawSmallFuncHeaderV98, hhA, hhB, hA, hB, if_true, HbcFile.rawEntryV98,
          hnoA, hnoB, if_false, hentry]
    cases V <;> simp [HbcVersion.compareLayout] at hcmp <;>
      simp only [HbcVersion.overflowedAdversarial, overflowedAdversarialV98, hraw]

/-! ## The fingerprint -/

/-- What the comparison compares. -/
structure Fingerprint where
  version : Nat
  counts : List Nat
  layoutFlags : Option (Bool × Bool)
  shapes : List (SectionName × Nat)
  contents : List (List UInt8)
  passthrough : List (List UInt8)
  metadata : List (Option FunctionData)

def HbcFile.fingerprint (f : HbcFile) (V : HbcVersion) : Fingerprint where
  version := f.version
  counts := f.primaryCounts
  layoutFlags := if V.compareLayout then some f.layoutFlags else none
  shapes := f.sections.map sectionShape
  contents := f.contents
  passthrough := (V.passthroughRanges f).map fun r => slice f.buf r.1 r.2
  metadata := trustedMetadata V.overflowedAdversarial f

theorem passthroughRanges_bounds (V : HbcVersion) (f : HbcFile) :
    ∀ r ∈ V.passthroughRanges f, r.1 ≤ r.2 ∧ r.2 ≤ 128 := by
  cases V with
  | v84 | v96 | v99 =>
    simp only [HbcVersion.passthroughRanges]
    decide
  | v98 =>
    simp only [HbcVersion.passthroughRanges]
    cases f.header.layout.useV99FuncHeader <;> decide

/-- The comparison of two accepted files of one version is equality of their fingerprints. -/
theorem fileEquiv_iff (ta : ParseTrace boundCount bufA a wA dbgA)
    (tb : ParseTrace boundCount bufB b wB dbgB) {V : HbcVersion} (hva : a.version = V.version)
    (hvb : b.version = V.version) :
    fileEquiv V V.compareLayout (V.passthroughRanges a) V.overflowedAdversarial a b = true ↔
      a.fingerprint V = b.fingerprint V := by
  have hlenA : headerSize ≤ a.buf.length := by rw [ta.buf_eq]; exact ta.length_ge
  have hlenB : headerSize ≤ b.buf.length := by rw [tb.buf_eq]; exact tb.length_ge
  have hpass := headerPassthroughEquiv_iff hlenA hlenB (passthroughRanges_bounds V a)
  have hversion : a.version = b.version := by rw [hva, hvb]
  have hflagsIff : (!V.compareLayout || decide (a.layoutFlags = b.layoutFlags)) = true ↔
      (if V.compareLayout then some a.layoutFlags else none) =
        (if V.compareLayout then some b.layoutFlags else none) := by
    cases V.compareLayout <;> simp
  simp only [fileEquiv, HbcFile.fingerprint, Fingerprint.mk.injEq, Bool.and_eq_true,
    decide_eq_true_eq, hversion, hvb, and_self, true_and, hflagsIff, sectionShapesEquiv_iff, hpass,
    and_assoc]
  apply and_congr_right
  intro hcounts
  apply and_congr_right
  intro hflags
  apply and_congr_right
  intro hshapes
  rw [sectionContentsEquiv_iff ta tb hshapes]
  apply and_congr_right
  intro hcontents
  have hcount : a.functionCount = b.functionCount := by
    simp only [HbcFile.primaryCounts, List.cons.injEq] at hcounts
    exact hcounts.1
  have hflagsEq : V.compareLayout = true → a.layoutFlags = b.layoutFlags := by
    intro h
    simpa [h] using hflags
  have hranges : V.passthroughRanges a = V.passthroughRanges b := by
    cases V with
    | v84 | v96 | v99 => rfl
    | v98 =>
      have h := hflagsEq rfl
      simp only [HbcFile.layoutFlags, Prod.mk.injEq] at h
      simp only [HbcVersion.passthroughRanges, h.1]
  rw [hranges, functionMetadataEquiv_iff hcount fun i hi =>
    overflowedAdversarial_congr ta tb hva hvb hcount hflagsEq hshapes hcontents hi]

/-- The round-trip comparison is an equivalence on the accepted files of a version. -/
theorem HbcFileEquiv.equivalence (boundCount : BoundCount) (V : HbcVersion) :
    Equivalence fun f g : AcceptedFile boundCount V =>
      f.toHbcFileEquiv.eq g.toHbcFileEquiv = true := by
  have hiff : ∀ f g : AcceptedFile boundCount V,
      f.toHbcFileEquiv.eq g.toHbcFileEquiv = true ↔
        f.file.fingerprint V = g.file.fingerprint V := by
    intro f g
    obtain ⟨wF, dbgF, tF⟩ := parse_eq_ok.mp f.accepted
    obtain ⟨wG, dbgG, tG⟩ := parse_eq_ok.mp g.accepted
    rw [HbcFileEquiv.eq_def]
    exact fileEquiv_iff tF tG f.version_eq g.version_eq
  constructor
  · intro f
    exact (hiff f f).mpr rfl
  · intro f g h
    exact (hiff g f).mpr ((hiff f g).mp h).symm
  · intro f g k hfg hgk
    exact (hiff f k).mpr (((hiff f g).mp hfg).trans ((hiff g k).mp hgk))

end Hermes
