-- SUMMARY: Where the section walk puts the sections: in order, apart, past the header, inside the buffer, with the sizes of the plan.
import DroidsawHermes.Parser.File

/-!
# Section layout

Every section starts at an aligned cursor at or past the end of the one before
it. `SectionWalk.Placed` is the invariant of the walk, indexed with the rank the
next planned section must have; sections keep the order of their ranks.
-/

open Bytes

namespace Hermes

/-! ## Ranks -/

/-- The position of a section in the file order. -/
def SectionName.rank : SectionName → Nat
  | .header => 0
  | .functionHeaders => 1
  | .stringKinds => 2
  | .identifierHashes => 3
  | .smallStringTable => 4
  | .overflowStringTable => 5
  | .stringStorage => 6
  | .arrayBuffer => 7
  | .objKeyBuffer => 8
  | .objValueBuffer => 9
  | .objShapeTable => 10
  | .bigIntTable => 11
  | .bigIntStorage => 12
  | .regExpTable => 13
  | .regExpStorage => 14
  | .cjsModules => 15
  | .functionSourceTable => 16

/-- The sections a plan may hold, in file order. -/
def SectionName.planOrder : List SectionName :=
  [.functionHeaders, .stringKinds, .identifierHashes, .smallStringTable, .overflowStringTable,
    .stringStorage, .arrayBuffer]
  ++ [.objKeyBuffer, .objValueBuffer, .objShapeTable]
  ++ [.bigIntTable, .bigIntStorage]
  ++ [.regExpTable, .regExpStorage, .cjsModules]
  ++ [.functionSourceTable]

theorem sectionPlan_sublist (header : HbcHeader) :
    ((sectionPlan header).map PlannedSection.name).Sublist SectionName.planOrder := by
  simp only [sectionPlan, SectionName.planOrder, List.map_append]
  refine (((List.Sublist.refl _).append ?_).append ?_).append (List.Sublist.refl _) |>.append ?_
  · cases header.layout with
    | preV84 | v84to86 | v87to96 => simp
    | v97toV98Early | v98LateToV99 =>
      by_cases hshape : header.objShapeTableCount > 0
      · simp [if_pos hshape]
      · simp [if_neg hshape]
  · split <;> simp
  · split <;> simp

/-- The plan lists the sections in the order of their ranks, past the header. -/
theorem sectionPlan_ranks (header : HbcHeader) :
    (sectionPlan header).Pairwise (fun p q => p.name.rank < q.name.rank) ∧
      ∀ p ∈ sectionPlan header, 1 ≤ p.name.rank := by
  have hsub := sectionPlan_sublist header
  constructor
  · have horder : SectionName.planOrder.Pairwise fun a b => a.rank < b.rank := by decide
    have hnames : ((sectionPlan header).map PlannedSection.name).Pairwise
        fun a b => a.rank < b.rank := horder.sublist hsub
    rwa [List.pairwise_map] at hnames
  · intro p hp
    have hpos : ∀ n ∈ SectionName.planOrder, 1 ≤ n.rank := by decide
    exact hpos p.name (hsub.subset (List.mem_map_of_mem hp))

/-- The sections that every plan holds. -/
theorem sectionPlan_functionHeaders (header : HbcHeader) :
    ⟨.functionHeaders, header.functionCount * header.layout.funcHeaderSize, false⟩ ∈
      sectionPlan header := by
  simp [sectionPlan]

theorem sectionPlan_stringKinds (header : HbcHeader) :
    ⟨.stringKinds, header.stringKindCount * 4, false⟩ ∈ sectionPlan header := by
  simp [sectionPlan]

theorem sectionPlan_identifierHashes (header : HbcHeader) :
    ⟨.identifierHashes, header.identifierCount * 4, false⟩ ∈ sectionPlan header := by
  simp [sectionPlan]

theorem sectionPlan_smallStringTable (header : HbcHeader) :
    ⟨.smallStringTable, header.stringCount * 4, false⟩ ∈ sectionPlan header := by
  simp [sectionPlan]

theorem sectionPlan_overflowStringTable (header : HbcHeader) :
    ⟨.overflowStringTable, header.overflowStringCount * 8, false⟩ ∈ sectionPlan header := by
  simp [sectionPlan]

theorem sectionPlan_stringStorage (header : HbcHeader) :
    ⟨.stringStorage, header.stringStorageSize, false⟩ ∈ sectionPlan header := by
  simp [sectionPlan]

/-- From v97 on a shape table with entries is planned. -/
theorem sectionPlan_objShapeTable {header : HbcHeader} (hnew : header.layout.funcHeaderSize = 12)
    (hpos : header.objShapeTableCount > 0) :
    ⟨.objShapeTable, header.objShapeTableCount * 8, false⟩ ∈ sectionPlan header := by
  simp only [sectionPlan]
  cases hl : header.layout <;> simp [hl, HeaderLayout.funcHeaderSize] at hnew ⊢ <;> simp [hpos]

/-- A plan has at most one section of a name. -/
theorem sectionPlan_unique {header : HbcHeader} {p q : PlannedSection}
    (hp : p ∈ sectionPlan header) (hq : q ∈ sectionPlan header) (hname : p.name = q.name) :
    p = q := by
  have hpair := List.pairwise_iff_getElem.mp (sectionPlan_ranks header).1
  obtain ⟨i, hi, rfl⟩ := List.getElem_of_mem hp
  obtain ⟨j, hj, rfl⟩ := List.getElem_of_mem hq
  rcases Nat.lt_trichotomy i j with hij | hij | hij
  · have := hpair i j hi hj hij
    rw [hname] at this
    omega
  · subst hij
    rfl
  · have := hpair j i hj hi hij
    rw [hname] at this
    omega

/-! ## One step -/

/-- Where the cursor is after a section. -/
def alignedEnd (s : Span) : Nat := align4U64 (saturatingAddU64 s.start s.size)

/-- The size a planned section takes in the file. -/
def PlannedSection.fileSize (p : PlannedSection) : Nat :=
  if p.optional then p.size % 2 ^ 32 else p.size

/-- Whether the walk records the section. -/
def PlannedSection.recorded (p : PlannedSection) : Bool := !p.optional || p.fileSize ≠ 0

/-- Everything a successful `section!` says. -/
theorem SectionWalk.addSection_eq_ok {bufLen : Nat} {w w' : SectionWalk} {name : SectionName}
    {size : Nat} :
    w.addSection bufLen name size = .ok w' ↔
      size ≤ u32Max ∧ w.cursor + size ≤ bufLen ∧
      align4U64 (saturatingAddU64 w.cursor size) ≤ u32Max ∧
      w' = { cursor := align4U64 (saturatingAddU64 w.cursor size),
             sections := w.sections ++ [⟨name, ⟨w.cursor, size⟩⟩] } := by
  simp only [SectionWalk.addSection]
  by_cases hsize : size > u32Max
  · have : ¬ size ≤ u32Max := by omega
    simp [hsize, this]
  by_cases hend : w.cursor + size > bufLen
  · have : ¬ w.cursor + size ≤ bufLen := by omega
    simp [hsize, hend, this]
  by_cases halign : align4U64 (saturatingAddU64 w.cursor size) > u32Max
  · have : ¬ align4U64 (saturatingAddU64 w.cursor size) ≤ u32Max := by omega
    simp [hsize, hend, halign, this]
  · have hsize' : size ≤ u32Max := by omega
    have hend' : w.cursor + size ≤ bufLen := by omega
    have halign' : align4U64 (saturatingAddU64 w.cursor size) ≤ u32Max := by omega
    simp only [hsize, hend, halign, hsize', hend', halign', if_false, Except.ok.injEq, true_and]
    exact eq_comm

/-- A step records the section or leaves the walk as it is. -/
theorem SectionWalk.step_cases {bufLen : Nat} {w w' : SectionWalk} {p : PlannedSection}
    (h : w.step bufLen p = .ok w') :
    (p.recorded = true ∧ w.addSection bufLen p.name p.fileSize = .ok w') ∨
      (p.recorded = false ∧ w' = w) := by
  simp only [SectionWalk.step] at h
  by_cases hopt : p.optional = true
  · simp only [hopt, if_true] at h
    by_cases hpos : p.size % 2 ^ 32 > 0
    · rw [if_pos hpos] at h
      have hne : p.size % 2 ^ 32 ≠ 0 := by omega
      have hfile : p.fileSize = p.size % 2 ^ 32 := by simp only [PlannedSection.fileSize, hopt, if_true]
      have hrec : p.recorded = true := by
        rw [← hfile] at hne
        simp [PlannedSection.recorded, hne]
      exact .inl ⟨hrec, by rw [hfile]; exact h⟩
    · rw [if_neg hpos, Except.ok.injEq] at h
      have hzero : p.size % 2 ^ 32 = 0 := by omega
      have hfile : p.fileSize = 0 := by simp only [PlannedSection.fileSize, hopt, if_true, hzero]
      exact .inr ⟨by simp [PlannedSection.recorded, hfile, hopt], h.symm⟩
  · simp only [hopt, Bool.false_eq_true, if_false] at h
    exact .inl ⟨by simp [PlannedSection.recorded, hopt],
      by simpa [PlannedSection.fileSize, hopt] using h⟩

/-! ## The placement invariant -/

/-- The walk is at a point where the sections of rank below `next` are done. -/
structure SectionWalk.Placed (bufLen next : Nat) (w : SectionWalk) : Prop where
  cursor_ge : 128 ≤ w.cursor
  cursor_le : w.cursor ≤ u32Max
  stop_le_cursor : ∀ e ∈ w.sections, e.span.stop ≤ w.cursor
  stop_le_bufLen : ∀ e ∈ w.sections, e.span.stop ≤ bufLen
  fits : ∀ e ∈ w.sections, e.span.size ≤ u32Max ∧ alignedEnd e.span ≤ u32Max
  start_ge : ∀ e ∈ w.sections, e.name ≠ .header → 128 ≤ e.span.start
  rank_lt : ∀ e ∈ w.sections, e.name.rank < next
  ordered : w.sections.Pairwise fun a b =>
    a.span.stop ≤ b.span.start ∧ a.name.rank < b.name.rank

theorem SectionWalk.init_placed {bufLen : Nat} (h : headerSize ≤ bufLen) :
    SectionWalk.init.Placed bufLen 1 := by
  simp only [headerSize] at h
  constructor <;> simp [SectionWalk.init, Span.stop, SectionName.rank, u32Max, u64Max, alignedEnd,
    align4U64, saturatingAddU64, h]

/-- The align-up of a small sum is at or past the sum. -/
private theorem le_align4U64_add {cursor size : Nat} (hc : cursor ≤ u32Max) (hs : size ≤ u32Max) :
    cursor + size ≤ align4U64 (saturatingAddU64 cursor size) := by
  have hsat : saturatingAddU64 cursor size = cursor + size := by
    simp only [saturatingAddU64, u32Max, u64Max] at *
    omega
  rw [hsat]
  apply le_align4U64
  simp only [u32Max, u64Max] at *
  omega

theorem SectionWalk.Placed.addSection {bufLen next : Nat} {w w' : SectionWalk}
    {name : SectionName} {size : Nat} (hw : w.Placed bufLen next) (hrank : next ≤ name.rank)
    (h : w.addSection bufLen name size = .ok w') :
    w'.Placed bufLen (name.rank + 1) := by
  obtain ⟨hsize, hend, hcur, rfl⟩ := SectionWalk.addSection_eq_ok.mp h
  have hle : w.cursor + size ≤ align4U64 (saturatingAddU64 w.cursor size) :=
    le_align4U64_add hw.cursor_le hsize
  have hge := hw.cursor_ge
  constructor
  · show 128 ≤ align4U64 _
    omega
  · exact hcur
  · intro e he
    rcases List.mem_append.mp he with hold | hnew
    · have := hw.stop_le_cursor e hold
      show e.span.stop ≤ align4U64 _
      omega
    · rw [List.mem_singleton.mp hnew]
      exact hle
  · intro e he
    rcases List.mem_append.mp he with hold | hnew
    · exact hw.stop_le_bufLen e hold
    · rw [List.mem_singleton.mp hnew]
      exact hend
  · intro e he
    rcases List.mem_append.mp he with hold | hnew
    · exact hw.fits e hold
    · rw [List.mem_singleton.mp hnew]
      exact ⟨hsize, hcur⟩
  · intro e he
    rcases List.mem_append.mp he with hold | hnew
    · exact hw.start_ge e hold
    · rw [List.mem_singleton.mp hnew]
      exact fun _ => hge
  · intro e he
    rcases List.mem_append.mp he with hold | hnew
    · have := hw.rank_lt e hold
      omega
    · rw [List.mem_singleton.mp hnew]
      exact Nat.lt_succ_self _
  · refine List.pairwise_append.mpr ⟨hw.ordered, List.pairwise_singleton _ _, ?_⟩
    intro a ha b hb
    rw [List.mem_singleton.mp hb]
    refine ⟨hw.stop_le_cursor a ha, ?_⟩
    have := hw.rank_lt a ha
    show a.name.rank < name.rank
    omega

theorem SectionWalk.Placed.mono {bufLen next next' : Nat} {w : SectionWalk}
    (hw : w.Placed bufLen next) (h : next ≤ next') : w.Placed bufLen next' :=
  { hw with rank_lt := fun e he => Nat.lt_of_lt_of_le (hw.rank_lt e he) h }

/-- The names and sizes that a walk over a plan adds. -/
def recordedSizes (plan : List PlannedSection) : List (SectionName × Nat) :=
  (plan.filter PlannedSection.recorded).map fun p => (p.name, p.fileSize)

/-- A walk over a rank-ordered plan keeps the invariant and records exactly the
planned names and sizes. -/
theorem SectionWalk.foldlM_step {bufLen : Nat} {plan : List PlannedSection} :
    ∀ {next : Nat} {w w' : SectionWalk}, w.Placed bufLen next →
      plan.Pairwise (fun p q => p.name.rank < q.name.rank) →
      (∀ p ∈ plan, next ≤ p.name.rank) →
      plan.foldlM (SectionWalk.step bufLen) w = .ok w' →
      (∃ next', w'.Placed bufLen next') ∧
      ∃ added, w'.sections = w.sections ++ added ∧
        added.map (fun e => (e.name, e.span.size)) = recordedSizes plan := by
  induction plan with
  | nil =>
    intro next w w' hw _ _ h
    cases h
    exact ⟨⟨next, hw⟩, [], by simp, rfl⟩
  | cons p plan ih =>
    intro next w w' hw hpair hrank h
    rw [List.foldlM_cons, Loop.bind_eq_ok] at h
    obtain ⟨w₁, hstep, hrest⟩ := h
    obtain ⟨hlt, hpair'⟩ := List.pairwise_cons.mp hpair
    have hrank' : ∀ q ∈ plan, p.name.rank + 1 ≤ q.name.rank := fun q hq => hlt q hq
    have hp : next ≤ p.name.rank := hrank p List.mem_cons_self
    rcases SectionWalk.step_cases hstep with ⟨hrec, hadd⟩ | ⟨hrec, rfl⟩
    · obtain ⟨hplaced, added, hsec, hmap⟩ :=
        ih (hw.addSection hp hadd) hpair' hrank' hrest
      obtain ⟨-, -, -, rfl⟩ := SectionWalk.addSection_eq_ok.mp hadd
      refine ⟨hplaced, ⟨p.name, ⟨w.cursor, p.fileSize⟩⟩ :: added, ?_, ?_⟩
      · rw [hsec, List.append_assoc, List.singleton_append]
      · simp only [List.map_cons, hmap, recordedSizes, List.filter_cons, hrec, if_true]
    · obtain ⟨hplaced, added, hsec, hmap⟩ :=
        ih (hw.mono (by omega)) hpair' hrank' hrest
      refine ⟨hplaced, added, hsec, ?_⟩
      simp only [hmap, recordedSizes, List.filter_cons, hrec, Bool.false_eq_true, if_false]

/-! ## The finished walk -/

/-- What the parser knows of a finished walk. -/
structure SectionWalk.Done (header : HbcHeader) (bufLen : Nat) (w : SectionWalk) : Prop where
  placed : w.Placed bufLen 17
  sizes : w.sections.map (fun e => (e.name, e.span.size)) =
    (.header, 128) :: recordedSizes (sectionPlan header)

theorem SectionName.rank_lt (name : SectionName) : name.rank < 17 := by
  cases name <;> decide

theorem walkSections_done {header : HbcHeader} {bufLen : Nat} {w : SectionWalk}
    (hlen : headerSize ≤ bufLen) (h : walkSections header bufLen = .ok w) :
    w.Done header bufLen := by
  obtain ⟨hpair, hrank⟩ := sectionPlan_ranks header
  obtain ⟨⟨next, hplaced⟩, added, hsec, hmap⟩ :=
    SectionWalk.foldlM_step (SectionWalk.init_placed hlen) hpair hrank h
  refine ⟨{ hplaced with rank_lt := fun e _ => SectionName.rank_lt _ }, ?_⟩
  rw [hsec, List.map_append, hmap]
  rfl

namespace SectionWalk.Done

variable {header : HbcHeader} {bufLen : Nat} {w : SectionWalk}

/-- Entries are told apart by their names. -/
theorem entry_unique (hw : w.Done header bufLen) {a b : SectionEntry}
    (ha : a ∈ w.sections) (hb : b ∈ w.sections) (hname : a.name = b.name) : a = b := by
  have hpair := List.pairwise_iff_getElem.mp hw.placed.ordered
  obtain ⟨i, hi, rfl⟩ := List.getElem_of_mem ha
  obtain ⟨j, hj, rfl⟩ := List.getElem_of_mem hb
  rcases Nat.lt_trichotomy i j with hij | hij | hij
  · have := (hpair i j hi hj hij).2
    rw [hname] at this
    omega
  · subst hij
    rfl
  · have := (hpair j i hj hi hij).2
    rw [hname] at this
    omega

theorem span_eq_of_mem (hw : w.Done header bufLen) {e : SectionEntry} (he : e ∈ w.sections) :
    w.span e.name = e.span := by
  simp only [SectionWalk.span]
  cases hfind : w.sections.find? (fun e' => e'.name = e.name) with
  | none =>
    have := List.find?_eq_none.mp hfind e he
    simp at this
  | some e' =>
    have hmem := List.mem_of_find?_eq_some hfind
    have hname := List.find?_some hfind
    simp only [decide_eq_true_eq] at hname
    rw [hw.entry_unique hmem he hname]
    rfl

/-- Of two recorded sections, the one of lower rank ends before the other starts. -/
theorem stop_le_start (hw : w.Done header bufLen) {a b : SectionEntry}
    (ha : a ∈ w.sections) (hb : b ∈ w.sections) (hrank : a.name.rank < b.name.rank) :
    a.span.stop ≤ b.span.start := by
  have hpair := List.pairwise_iff_getElem.mp hw.placed.ordered
  obtain ⟨i, hi, rfl⟩ := List.getElem_of_mem ha
  obtain ⟨j, hj, rfl⟩ := List.getElem_of_mem hb
  rcases Nat.lt_trichotomy i j with hij | hij | hij
  · exact (hpair i j hi hj hij).1
  · subst hij
    omega
  · have := (hpair j i hj hi hij).2
    omega

/-- A name is recorded with a size exactly when the plan records it so. -/
theorem mem_sizes (hw : w.Done header bufLen) {name : SectionName} {size : Nat} :
    (∃ e ∈ w.sections, e.name = name ∧ e.span.size = size) ↔
      (name, size) ∈ (SectionName.header, 128) :: recordedSizes (sectionPlan header) := by
  rw [← hw.sizes, List.mem_map]
  simp only [Prod.mk.injEq]

/-- The span of a section that the plan records. -/
theorem span_recorded (hw : w.Done header bufLen) {name : SectionName} {size : Nat}
    (h : (name, size) ∈ recordedSizes (sectionPlan header)) :
    ⟨name, w.span name⟩ ∈ w.sections ∧ (w.span name).size = size := by
  obtain ⟨e, he, rfl, rfl⟩ := hw.mem_sizes.mpr (List.mem_cons_of_mem _ h)
  rw [hw.span_eq_of_mem he]
  exact ⟨he, rfl⟩

/-- The span of a section that the source reads with `section!`. -/
theorem span_required (hw : w.Done header bufLen) {name : SectionName} {size : Nat}
    (h : ⟨name, size, false⟩ ∈ sectionPlan header) :
    ⟨name, w.span name⟩ ∈ w.sections ∧ (w.span name).size = size := by
  apply hw.span_recorded
  have hrec : PlannedSection.recorded ⟨name, size, false⟩ = true := by
    simp [PlannedSection.recorded]
  have hmem := List.mem_map_of_mem (f := fun p : PlannedSection => (p.name, p.fileSize))
    (List.mem_filter.mpr ⟨h, hrec⟩)
  simpa [recordedSizes, PlannedSection.fileSize] using hmem

/-- The span of a section that the plan leaves out. -/
theorem span_absent (hw : w.Done header bufLen) {name : SectionName} (hne : name ≠ .header)
    (h : ∀ size, (name, size) ∉ recordedSizes (sectionPlan header)) :
    w.span name = Span.absent := by
  simp only [SectionWalk.span]
  cases hfind : w.sections.find? (fun e => e.name = name) with
  | none => rfl
  | some e =>
    have hmem := List.mem_of_find?_eq_some hfind
    have hname := List.find?_some hfind
    simp only [decide_eq_true_eq] at hname
    have := hw.mem_sizes.mp ⟨e, hmem, hname, rfl⟩
    simp only [List.mem_cons, Prod.mk.injEq, hne, false_and, false_or] at this
    exact absurd this (h _)

/-- A planned section has its planned size, recorded or not. -/
theorem span_size (hw : w.Done header bufLen) {p : PlannedSection} (hp : p ∈ sectionPlan header) :
    (w.span p.name).size = p.fileSize := by
  by_cases hrec : p.recorded = true
  · have hmem := List.mem_map_of_mem (f := fun p : PlannedSection => (p.name, p.fileSize))
      (List.mem_filter.mpr ⟨hp, hrec⟩)
    exact (hw.span_recorded hmem).2
  · have hzero : p.fileSize = 0 := by
      simp only [PlannedSection.recorded, Bool.or_eq_true, Bool.not_eq_true', not_or,
        decide_eq_true_eq, not_not] at hrec
      exact hrec.2
    have habsent : w.span p.name = Span.absent := by
      apply hw.span_absent
      · intro heq
        have := (sectionPlan_ranks header).2 p hp
        simp [heq, SectionName.rank] at this
      · -- the plan has no other section of that name
        intro size hmem
        obtain ⟨q, hq, hqeq⟩ := List.mem_map.mp hmem
        obtain ⟨hqplan, hqrec⟩ := List.mem_filter.mp hq
        simp only [Prod.mk.injEq] at hqeq
        have hpq := sectionPlan_unique hp hqplan hqeq.1.symm
        rw [hpq] at hrec
        exact hrec hqrec
    rw [habsent, hzero]
    rfl

/-- Every span of the walk, absent ones included, ends at or before the cursor. -/
theorem span_stop_le (hw : w.Done header bufLen) (name : SectionName) :
    (w.span name).stop ≤ w.cursor := by
  simp only [SectionWalk.span]
  cases hfind : w.sections.find? (fun e => e.name = name) with
  | none => simp [Span.absent, Span.stop]
  | some e => exact hw.placed.stop_le_cursor e (List.mem_of_find?_eq_some hfind)

end SectionWalk.Done

/-! ## The six sections that every file has -/

/-- The record of a section that starts at the cursor. -/
def SectionWalk.push (w : SectionWalk) (name : SectionName) (size : Nat) : SectionWalk where
  cursor := alignedEnd ⟨w.cursor, size⟩
  sections := w.sections ++ [⟨name, ⟨w.cursor, size⟩⟩]

theorem SectionWalk.foldlM_required {bufLen : Nat} {plan : List PlannedSection}
    {name : SectionName} {size : Nat} {w w' : SectionWalk}
    (h : (⟨name, size, false⟩ :: plan).foldlM (SectionWalk.step bufLen) w = .ok w') :
    plan.foldlM (SectionWalk.step bufLen) (w.push name size) = .ok w' := by
  rw [List.foldlM_cons, Loop.bind_eq_ok] at h
  obtain ⟨w₁, hstep, hrest⟩ := h
  have hadd : w.addSection bufLen name size = .ok w₁ := by
    simpa [SectionWalk.step] using hstep
  obtain ⟨-, -, -, rfl⟩ := SectionWalk.addSection_eq_ok.mp hadd
  exact hrest

theorem SectionWalk.sections_prefix {bufLen : Nat} {plan : List PlannedSection} :
    ∀ {w w' : SectionWalk}, plan.foldlM (SectionWalk.step bufLen) w = .ok w' →
      ∃ added, w'.sections = w.sections ++ added := by
  induction plan with
  | nil =>
    intro w w' h
    cases h
    exact ⟨[], by simp⟩
  | cons p plan ih =>
    intro w w' h
    rw [List.foldlM_cons, Loop.bind_eq_ok] at h
    obtain ⟨w₁, hstep, hrest⟩ := h
    obtain ⟨added, hadded⟩ := ih hrest
    rcases SectionWalk.step_cases hstep with ⟨-, hadd⟩ | ⟨-, rfl⟩
    · obtain ⟨-, -, -, rfl⟩ := SectionWalk.addSection_eq_ok.mp hadd
      exact ⟨⟨p.name, ⟨w.cursor, p.fileSize⟩⟩ :: added, by rw [hadded]; simp⟩
    · exact ⟨added, hadded⟩

/-- The walk lays the six leading sections one after the other from byte 128. -/
structure SectionWalk.Leading (header : HbcHeader) (w : SectionWalk) : Prop where
  functionHeaders : w.span .functionHeaders =
    ⟨128, header.functionCount * header.layout.funcHeaderSize⟩
  stringKinds : w.span .stringKinds =
    ⟨alignedEnd (w.span .functionHeaders), header.stringKindCount * 4⟩
  identifierHashes : w.span .identifierHashes =
    ⟨alignedEnd (w.span .stringKinds), header.identifierCount * 4⟩
  smallStringTable : w.span .smallStringTable =
    ⟨alignedEnd (w.span .identifierHashes), header.stringCount * 4⟩
  overflowStringTable : w.span .overflowStringTable =
    ⟨alignedEnd (w.span .smallStringTable), header.overflowStringCount * 8⟩
  stringStorage : w.span .stringStorage =
    ⟨alignedEnd (w.span .overflowStringTable), header.stringStorageSize⟩

theorem walkSections_leading {header : HbcHeader} {bufLen : Nat} {w : SectionWalk}
    (h : walkSections header bufLen = .ok w) : w.Leading header := by
  simp only [walkSections, sectionPlan, List.cons_append, List.nil_append, List.append_assoc] at h
  have h := SectionWalk.foldlM_required h
  have h := SectionWalk.foldlM_required h
  have h := SectionWalk.foldlM_required h
  have h := SectionWalk.foldlM_required h
  have h := SectionWalk.foldlM_required h
  have h := SectionWalk.foldlM_required h
  obtain ⟨added, hadded⟩ := SectionWalk.sections_prefix h
  constructor <;> simp [SectionWalk.span, hadded, SectionWalk.push, SectionWalk.init, alignedEnd]

end Hermes
