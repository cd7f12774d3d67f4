-- SUMMARY: The marks of an accepted file are exact, and the bodies of unmarked functions are isolated.
import DroidsawHermes.Parser.Accepted

/-!
# Recover-and-mark and body isolation

`Recognized` says what it takes to trust a function: a metadata read that the
strict accessor agrees with, an exception table apart from everything emit
rewrites, and handlers inside the body. The passes of the validation mark exactly
the functions that miss it, and accept the file only when the bodies of the
others lie apart in the bytecode region.
-/

open Bytes Sorted

namespace Hermes

namespace HbcFile

variable (f : HbcFile)

/-- The regions that emit recomputes: the file header and the synthesized tables. -/
def synthesizedSpans : List Span :=
  ⟨0, headerSize⟩ :: emitSynthesizedSections.map f.synthesizedSectionSpanByName

/-- The bytes of a function body. -/
def body (i : Nat) : Span := ⟨(f.functionGet i).offset, (f.functionGet i).size⟩

/-- The bytes of an exception table: the count word and the handlers. -/
def excTable (i : Nat) : Span := ⟨f.getExcTableOffset i, 4 + 12 * f.functionExceptionCount i⟩

/-- A function whose metadata can be trusted. -/
structure Recognized (i : Nat) : Prop where
  checked : f.functionGetChecked i = .ok (f.functionGet i)
  table : hasExceptionHandler (f.functionGet i) = true →
    ∀ s ∈ f.synthesizedSpans, (f.excTable i).Disjoint s
  handlers : ∀ h < f.functionExceptionCount i,
    (f.functionExceptionGet i h).start < (f.functionExceptionGet i h).stop ∧
    (f.functionExceptionGet i h).stop ≤ (f.functionGet i).size ∧
    (f.functionExceptionGet i h).target < (f.functionGet i).size

/-- What Pass 1 asks of a function before it looks at its body. -/
structure Trusted (i : Nat) : Prop where
  checked : f.functionGetChecked i = .ok (f.functionGet i)
  table : f.excTableOverlapsSynthesized i = none

/-! ## The overlap test -/

end HbcFile

/-- Below `2^64` the intersection test is the intersection of the ranges. -/
theorem spansIntersect_eq_true_iff {a b : Span} (ha : a.stop ≤ u64Max) (hb : b.stop ≤ u64Max) :
    spansIntersect a.start a.size b.start b.size = true ↔ ¬ a.Disjoint b := by
  simp only [Span.stop] at ha hb
  rw [Span.not_disjoint_iff]
  simp only [spansIntersect, saturatingAddU64, Nat.min_eq_left ha, Nat.min_eq_left hb, Span.stop]
  by_cases hzero : a.size = 0 ∨ b.size = 0
  · simp only [hzero, if_true]
    simp only [Bool.false_eq_true, false_iff]
    omega
  · simp only [hzero, if_false, decide_eq_true_eq]
    omega

theorem narrowAlign4_le (v : Nat) : narrowAlign4 v ≤ u32Max := by
  simp only [narrowAlign4]
  split <;> omega

namespace HbcFile

variable {f : HbcFile}

theorem getExcTableOffset_le (f : HbcFile) (i : Nat) : f.getExcTableOffset i ≤ u32Max := by
  simp only [getExcTableOffset]
  repeat' split
  all_goals first | exact Nat.zero_le _ | exact narrowAlign4_le _

theorem excTableCountCapped_le (f : HbcFile) (off : Nat) :
    f.excTableCountCapped off ≤ maxExceptionHandlers := by
  simp only [excTableCountCapped]
  repeat' split
  all_goals omega

/-- With the flag set, the overlap test looks at the whole table. -/
theorem excTableCountCapped_eq {i : Nat} (hi : i < f.functionCount)
    (hexc : hasExceptionHandler (f.functionGet i) = true) :
    f.excTableCountCapped (f.getExcTableOffset i) = f.functionExceptionCount i := by
  have hi' : ¬ i ≥ f.functionCount := by omega
  simp only [excTableCountCapped, functionExceptionCount, hi', hexc, if_false, Bool.not_true,
    Bool.false_eq_true, exceptionCountIsCapped, decide_eq_true_eq]
  by_cases hlen : f.getExcTableOffset i + 4 ≤ f.buf.length
  · have hlen' : ¬ f.getExcTableOffset i + 4 > f.buf.length := by omega
    simp only [hlen, hlen', if_true, if_false]
  · have hlen' : f.getExcTableOffset i + 4 > f.buf.length := by omega
    simp only [hlen, hlen', if_true, if_false]

theorem spanOverlapsSynthesized_eq_true_iff {s : Span} (hs : s.stop ≤ u64Max)
    (hspans : ∀ x ∈ f.synthesizedSpans, x.stop ≤ u64Max) :
    f.spanOverlapsSynthesized s.start s.size = true ↔
      ∃ x ∈ f.synthesizedSpans, ¬ s.Disjoint x := by
  have hheader := spansIntersect_eq_true_iff hs (hspans _ List.mem_cons_self)
  have htable : ∀ name ∈ emitSynthesizedSections,
      (spansIntersect s.start s.size (f.synthesizedSectionSpanByName name).start
        (f.synthesizedSectionSpanByName name).size = true ↔
        ¬ s.Disjoint (f.synthesizedSectionSpanByName name)) := fun name hname =>
    spansIntersect_eq_true_iff hs
      (hspans _ (List.mem_cons_of_mem _ (List.mem_map_of_mem hname)))
  simp only [spanOverlapsSynthesized, synthesizedSpans, List.exists_mem_cons_iff, List.mem_map,
    exists_exists_and_eq_and]
  rw [← hheader]
  by_cases hhit : spansIntersect s.start s.size 0 headerSize = true
  · simp only [hhit, if_true, true_or]
  · simp only [hhit, Bool.false_eq_true, if_false, false_or, List.any_eq_true]
    exact exists_congr fun name => and_congr_right fun hname => htable name hname

/-! ## Trust -/

/-- Every span the overlap test looks at ends below `2^64`. -/
def SpansBounded (f : HbcFile) : Prop := ∀ x ∈ f.synthesizedSpans, x.stop ≤ u64Max

theorem excTable_stop_le (hi : i < f.functionCount)
    (hexc : hasExceptionHandler (f.functionGet i) = true) : (f.excTable i).stop ≤ u64Max := by
  have hoff := f.getExcTableOffset_le i
  have hcount := f.excTableCountCapped_le (f.getExcTableOffset i)
  rw [excTableCountCapped_eq hi hexc] at hcount
  simp only [Span.stop, excTable, u32Max, u64Max, maxExceptionHandlers] at *
  omega

/-- Pass 1 trusts a function exactly when it meets the first two conditions. -/
theorem trusted_iff (hspans : f.SpansBounded) {i : Nat} (hi : i < f.functionCount) :
    f.Trusted i ↔ f.functionGetChecked i = .ok (f.functionGet i) ∧
      (hasExceptionHandler (f.functionGet i) = true →
        ∀ s ∈ f.synthesizedSpans, (f.excTable i).Disjoint s) := by
  have htable : f.excTableOverlapsSynthesized i = none ↔
      (hasExceptionHandler (f.functionGet i) = true →
        ∀ s ∈ f.synthesizedSpans, (f.excTable i).Disjoint s) := by
    by_cases hexc : hasExceptionHandler (f.functionGet i) = true
    · have hover := spanOverlapsSynthesized_eq_true_iff (excTable_stop_le hi hexc) hspans
      have hsize : f.functionExceptionCount i * 12 + 4 = 4 + 12 * f.functionExceptionCount i := by
        omega
      simp only [excTableOverlapsSynthesized, hexc, excTableCountCapped_eq hi hexc, hsize,
        Bool.not_true, Bool.false_eq_true, if_false, true_implies]
      simp only [excTable] at hover ⊢
      by_cases hhit : f.spanOverlapsSynthesized (f.getExcTableOffset i)
          (4 + 12 * f.functionExceptionCount i) = true
      · obtain ⟨x, hx, hmeet⟩ := hover.mp hhit
        simp only [hhit, if_true, reduceCtorEq, false_iff, not_forall]
        exact ⟨x, hx, hmeet⟩
      · simp only [hhit, Bool.false_eq_true, if_false, true_iff]
        intro s hs
        by_contra hmeet
        exact hhit (hover.mpr ⟨s, hs, hmeet⟩)
    · simp [excTableOverlapsSynthesized, hexc]
  constructor
  · rintro ⟨hchecked, hover⟩
    exact ⟨hchecked, htable.mp hover⟩
  · rintro ⟨hchecked, hdisj⟩
    exact ⟨hchecked, htable.mpr hdisj⟩

/-- The function that Pass 3 accepts. -/
def HandlersInRange (f : HbcFile) (i : Nat) : Prop :=
  ∀ h < f.functionExceptionCount i,
    handlerInRange (f.functionExceptionGet i h) (f.functionGet i).size = true

theorem recognized_iff (hspans : f.SpansBounded) {i : Nat} (hi : i < f.functionCount) :
    f.Recognized i ↔ f.Trusted i ∧ f.HandlersInRange i := by
  simp only [trusted_iff hspans hi, HandlersInRange, handlerInRange, decide_eq_true_eq]
  constructor
  · rintro ⟨hchecked, htable, hhandlers⟩
    exact ⟨⟨hchecked, htable⟩, hhandlers⟩
  · rintro ⟨⟨hchecked, htable⟩, hhandlers⟩
    exact ⟨hchecked, htable, hhandlers⟩

/-! ## Pass 1 -/

def bodySpan (f : HbcFile) (i : Nat) : BodySpan :=
  ⟨i, (f.functionGet i).offset, (f.functionGet i).size⟩

/-- Everything one round of Pass 1 can do. -/
theorem pass1Step_cases {s s' : Pass1} {i : Nat}
    (hentry : f.entryOff i + f.funcHeaderSize ≤ f.buf.length)
    (h : f.pass1Step s i = .ok s') :
    (¬ f.Trusted i ∧ ∃ reason, s' = s.mark i reason) ∨
    (f.Trusted i ∧ (f.functionGet i).size = 0 ∧ s' = s) ∨
    (f.Trusted i ∧ (f.functionGet i).size ≠ 0 ∧
      f.bytecodeRegion.1 ≤ (f.functionGet i).offset ∧
      (f.functionGet i).offset + (f.functionGet i).size ≤ f.bytecodeRegion.2 ∧
      s' = { s with spans := s.spans ++ [f.bodySpan i] }) := by
  simp only [pass1Step] at h
  cases hchecked : f.functionGetChecked i with
  | error e =>
    have hnot : ¬ f.Trusted i := fun ht => by
      rw [ht.checked] at hchecked
      cases hchecked
    cases functionGetChecked_error hentry hchecked with
    | outOfBounds | overlaps | ambiguous =>
      simp only [hchecked, Except.ok.injEq] at h
      exact .inl ⟨hnot, _, h.symm⟩
  | ok d =>
    have hd := functionGetChecked_ok hchecked
    subst hd
    simp only [hchecked] at h
    cases hover : f.excTableOverlapsSynthesized i with
    | some off =>
      simp only [hover, Except.ok.injEq] at h
      have hnot : ¬ f.Trusted i := fun ht => by
        rw [ht.table] at hover
        cases hover
      exact .inl ⟨hnot, _, h.symm⟩
    | none =>
      have ht : f.Trusted i := ⟨hchecked, hover⟩
      simp only [hover, checkBodyRegion] at h
      by_cases hsize : (f.functionGet i).size = 0
      · simp only [hsize, if_true, Except.ok.injEq] at h
        exact .inr (.inl ⟨ht, hsize, h.symm⟩)
      · simp only [hsize, if_false] at h
        split at h
        · cases h
        split at h
        · cases h
        · rename_i hregion
          cases h
          exact .inr (.inr ⟨ht, hsize, by omega, by omega, rfl⟩)

/-- What Pass 1 has done after the indices below `k`. -/
structure Pass1Inv (f : HbcFile) (k : Nat) (s : Pass1) : Prop where
  strict : StrictBy UnrecognizedFunction.funcIdx s.unrecognized
  marks : ∀ i, (∃ u ∈ s.unrecognized, u.funcIdx = i) ↔ i < k ∧ ¬ f.Trusted i
  spans : ∀ i < k, f.Trusted i → (f.functionGet i).size ≠ 0 → f.bodySpan i ∈ s.spans
  region : ∀ x ∈ s.spans, f.bytecodeRegion.1 ≤ x.offset ∧ x.offset + x.size ≤ f.bytecodeRegion.2

/-- Adding a mark for the next index. -/
private theorem strictBy_mark {l : List UnrecognizedFunction} {k : Nat} {reason : UnrecognizedReason}
    (hstrict : StrictBy UnrecognizedFunction.funcIdx l) (hlt : ∀ u ∈ l, u.funcIdx < k) :
    StrictBy UnrecognizedFunction.funcIdx (l ++ [⟨k, reason⟩]) :=
  hstrict.concat fun y hy => hlt y hy

private theorem mem_mark {l : List UnrecognizedFunction} {k i : Nat} {reason : UnrecognizedReason} :
    (∃ u ∈ l ++ [⟨k, reason⟩], u.funcIdx = i) ↔ (∃ u ∈ l, u.funcIdx = i) ∨ k = i := by
  simp only [List.mem_append, List.mem_singleton, or_and_right, exists_or, exists_eq_left]

theorem Pass1Inv.step {k : Nat} {s s' : Pass1} (hinv : Pass1Inv f k s)
    (hentry : f.entryOff k + f.funcHeaderSize ≤ f.buf.length)
    (h : f.pass1Step s k = .ok s') : Pass1Inv f (k + 1) s' := by
  have hlt : ∀ u ∈ s.unrecognized, u.funcIdx < k := fun u hu =>
    ((hinv.marks u.funcIdx).mp ⟨u, hu, rfl⟩).1
  rcases pass1Step_cases hentry h with
    ⟨hnot, reason, rfl⟩ | ⟨ht, hsize, rfl⟩ | ⟨ht, hsize, hlo, hhi, rfl⟩
  · refine ⟨strictBy_mark hinv.strict hlt, ?_, ?_, hinv.region⟩
    · intro i
      rw [Pass1.mark, mem_mark, hinv.marks]
      constructor
      · rintro (⟨hik, hni⟩ | rfl)
        · exact ⟨by omega, hni⟩
        · exact ⟨by omega, hnot⟩
      · rintro ⟨hik, hni⟩
        rcases Nat.lt_or_eq_of_le (Nat.le_of_lt_succ hik) with hlt | rfl
        · exact .inl ⟨hlt, hni⟩
        · exact .inr rfl
    · intro i hik hti hsi
      rcases Nat.lt_or_eq_of_le (Nat.le_of_lt_succ hik) with hlt | rfl
      · exact hinv.spans i hlt hti hsi
      · exact absurd hti hnot
  · have hmarks : ∀ i, (∃ u ∈ s'.unrecognized, u.funcIdx = i) ↔ i < k + 1 ∧ ¬ f.Trusted i := by
      intro i
      rw [hinv.marks]
      constructor
      · rintro ⟨hik, hni⟩
        exact ⟨by omega, hni⟩
      · rintro ⟨hik, hni⟩
        rcases Nat.lt_or_eq_of_le (Nat.le_of_lt_succ hik) with hlt | rfl
        · exact ⟨hlt, hni⟩
        · exact absurd ht hni
    refine ⟨hinv.strict, hmarks, ?_, hinv.region⟩
    intro i hik hti hsi
    rcases Nat.lt_or_eq_of_le (Nat.le_of_lt_succ hik) with hlt | rfl
    · exact hinv.spans i hlt hti hsi
    · exact absurd hsize hsi
  · refine ⟨hinv.strict, ?_, ?_, ?_⟩
    · intro i
      rw [hinv.marks]
      constructor
      · rintro ⟨hik, hni⟩
        exact ⟨by omega, hni⟩
      · rintro ⟨hik, hni⟩
        rcases Nat.lt_or_eq_of_le (Nat.le_of_lt_succ hik) with hlt | rfl
        · exact ⟨hlt, hni⟩
        · exact absurd ht hni
    · intro i hik hti hsi
      rcases Nat.lt_or_eq_of_le (Nat.le_of_lt_succ hik) with hlt | rfl
      · exact List.mem_append_left _ (hinv.spans i hlt hti hsi)
      · exact List.mem_append_right _ List.mem_cons_self
    · intro x hx
      rcases List.mem_append.mp hx with hold | hnew
      · exact hinv.region x hold
      · rw [List.mem_singleton.mp hnew]
        exact ⟨hlo, hhi⟩

theorem pass1_inv {s : Pass1}
    (hentry : ∀ i < f.functionCount, f.entryOff i + f.funcHeaderSize ≤ f.buf.length)
    (h : f.pass1 = .ok s) : Pass1Inv f f.functionCount s := by
  refine Loop.forRange_invariant (Pass1Inv f) ?_ ?_ h
  · exact ⟨List.Pairwise.nil, by simp, by simp, by simp⟩
  · intro k t t' hk hinv hstep
    exact hinv.step (hentry k hk) hstep

/-! ## Pass 2 -/

/-- The byte range of a body span. -/
def bodyRange (x : BodySpan) : Span := ⟨x.offset, x.size⟩

theorem pass2Step_ok {s s' : Dedups} {a b : BodySpan} (h : pass2Step s (a, b) = .ok s') :
    (bodyRange a).SameOrBefore (bodyRange b) := by
  simp only [pass2Step] at h
  split at h
  · rename_i hsame
    left
    simp only [bodyRange, hsame.1, hsame.2]
  split at h
  · cases h
  split at h
  · cases h
  · right
    simp only [bodyRange, Span.stop]
    omega

/-- The bodies that pass the overlap check coincide or are disjoint. -/
theorem pass2_apart {spans : List BodySpan} {s : Dedups} (h : pass2 spans = .ok s)
    {x y : BodySpan} (hx : x ∈ spans) (hy : y ∈ spans) :
    bodyRange x = bodyRange y ∨ (bodyRange x).Disjoint (bodyRange y) := by
  have hpairs : ∀ p ∈ windows2 (sortByOffset spans),
      (bodyRange p.1).SameOrBefore (bodyRange p.2) :=
    Loop.forall_of_foldlM (fun _ _ _ hstep => pass2Step_ok hstep) h
  have hmem : ∀ z, z ∈ spans → z ∈ sortByOffset spans := fun z hz =>
    (List.perm_insertionSort _ spans).mem_iff.mpr hz
  exact Span.same_or_disjoint_of_windows2 hpairs (hmem x hx) (hmem y hy)

/-! ## Pass 3 -/

theorem firstBadHandler_eq_none {i : Nat} :
    f.firstBadHandler i (f.functionGet i).size = none ↔ f.HandlersInRange i := by
  simp only [firstBadHandler, List.find?_eq_none, List.mem_range, HandlersInRange,
    Bool.not_eq_true', Bool.not_eq_false]

/-- On sorted marks the binary search decides membership. -/
theorem hasFuncIdx_iff {marks : List UnrecognizedFunction}
    (h : StrictBy UnrecognizedFunction.funcIdx marks) {i : Nat} :
    hasFuncIdx marks i = true ↔ ∃ u ∈ marks, u.funcIdx = i :=
  binarySearchByKey_isSome_iff h i

/-- Everything one round of Pass 3 can do. -/
theorem pass3Step_cases {unrecognized s s' : List UnrecognizedFunction} {i : Nat}
    (hsorted : StrictBy UnrecognizedFunction.funcIdx unrecognized)
    (hmarks : (∃ u ∈ unrecognized, u.funcIdx = i) ↔ ¬ f.Trusted i)
    (h : f.pass3Step unrecognized s i = .ok s') :
    (¬ f.Trusted i ∧ s' = s) ∨ (f.Trusted i ∧ f.HandlersInRange i ∧ s' = s) ∨
    (f.Trusted i ∧ ¬ f.HandlersInRange i ∧ ∃ reason, s' = s ++ [⟨i, reason⟩]) := by
  simp only [pass3Step] at h
  by_cases hmem : hasFuncIdx unrecognized i = true
  · rw [if_pos hmem] at h
    cases h
    rw [hasFuncIdx_iff hsorted, hmarks] at hmem
    exact .inl ⟨hmem, rfl⟩
  · rw [if_neg hmem] at h
    rw [hasFuncIdx_iff hsorted, hmarks, not_not] at hmem
    simp only [hmem.checked] at h
    cases hbad : f.firstBadHandler i (f.functionGet i).size with
    | none =>
      simp only [hbad, Except.ok.injEq] at h
      exact .inr (.inl ⟨hmem, firstBadHandler_eq_none.mp hbad, h.symm⟩)
    | some handler =>
      simp only [hbad, Except.ok.injEq] at h
      have hnot : ¬ f.HandlersInRange i := fun hin => by
        rw [firstBadHandler_eq_none.mpr hin] at hbad
        cases hbad
      exact .inr (.inr ⟨hmem, hnot, _, h.symm⟩)

/-- What Pass 3 has done after the indices below `k`. -/
structure Pass3Inv (f : HbcFile) (k : Nat) (s : List UnrecognizedFunction) : Prop where
  strict : StrictBy UnrecognizedFunction.funcIdx s
  marks : ∀ i, (∃ u ∈ s, u.funcIdx = i) ↔ i < k ∧ f.Trusted i ∧ ¬ f.HandlersInRange i

theorem Pass3Inv.keep {k : Nat} {s : List UnrecognizedFunction} (hinv : Pass3Inv f k s)
    (hk : ¬ (f.Trusted k ∧ ¬ f.HandlersInRange k)) : Pass3Inv f (k + 1) s := by
  refine ⟨hinv.strict, fun i => ?_⟩
  rw [hinv.marks]
  constructor
  · rintro ⟨hik, hbad⟩
    exact ⟨by omega, hbad⟩
  · rintro ⟨hik, hbad⟩
    rcases Nat.lt_or_eq_of_le (Nat.le_of_lt_succ hik) with hlt | rfl
    · exact ⟨hlt, hbad⟩
    · exact absurd hbad hk

theorem pass3_inv {unrecognized marks : List UnrecognizedFunction}
    (hsorted : StrictBy UnrecognizedFunction.funcIdx unrecognized)
    (hmarks : ∀ i, (∃ u ∈ unrecognized, u.funcIdx = i) ↔ i < f.functionCount ∧ ¬ f.Trusted i)
    (h : f.pass3 unrecognized = .ok marks) : Pass3Inv f f.functionCount marks := by
  refine Loop.forRange_invariant (Pass3Inv f) ⟨List.Pairwise.nil, by simp⟩ ?_ h
  intro k t t' hk hinv hstep
  have hmark : (∃ u ∈ unrecognized, u.funcIdx = k) ↔ ¬ f.Trusted k := by
    rw [hmarks]
    exact and_iff_right hk
  rcases pass3Step_cases hsorted hmark hstep with
    ⟨hnot, rfl⟩ | ⟨ht, hin, rfl⟩ | ⟨ht, hbad, reason, rfl⟩
  · exact hinv.keep fun h => hnot h.1
  · exact hinv.keep fun h => h.2 hin
  · have hlt : ∀ u ∈ t, u.funcIdx < k := fun u hu =>
      ((hinv.marks u.funcIdx).mp ⟨u, hu, rfl⟩).1
    refine ⟨strictBy_mark hinv.strict hlt, fun i => ?_⟩
    rw [mem_mark, hinv.marks]
    constructor
    · rintro (⟨hik, hi⟩ | rfl)
      · exact ⟨by omega, hi⟩
      · exact ⟨by omega, ht, hbad⟩
    · rintro ⟨hik, hi⟩
      rcases Nat.lt_or_eq_of_le (Nat.le_of_lt_succ hik) with hlt | rfl
      · exact .inl ⟨hlt, hi⟩
      · exact .inr rfl

/-! ## The validation as a whole -/

/-- What a validation that ends well says about the marks and the bodies. -/
structure Validated (f : HbcFile) (marks : List UnrecognizedFunction) : Prop where
  strict : StrictBy UnrecognizedFunction.funcIdx marks
  marks_iff : ∀ i, (∃ u ∈ marks, u.funcIdx = i) ↔
    i < f.functionCount ∧ ¬ (f.Trusted i ∧ f.HandlersInRange i)
  region : ∀ i < f.functionCount, f.Trusted i → (f.functionGet i).size ≠ 0 →
    f.bytecodeRegion.1 ≤ (f.body i).start ∧ (f.body i).stop ≤ f.bytecodeRegion.2
  apart : ∀ i < f.functionCount, ∀ j < f.functionCount, f.Trusted i → f.Trusted j →
    (f.functionGet i).size ≠ 0 → (f.functionGet j).size ≠ 0 →
    f.body i = f.body j ∨ (f.body i).Disjoint (f.body j)

theorem validated_of_ok {marks : List UnrecognizedFunction}
    (hentry : ∀ i < f.functionCount, f.entryOff i + f.funcHeaderSize ≤ f.buf.length)
    (h : f.validateFunctionRegions = .ok marks) : f.Validated marks := by
  simp only [validateFunctionRegions, Loop.bind_eq_ok] at h
  obtain ⟨s, hpass1, dedups, hpass2, _, -, marks3, hpass3, hmerge⟩ := h
  cases hmerge
  have h1 := pass1_inv hentry hpass1
  have h3 := pass3_inv h1.strict h1.marks hpass3
  have hdisj : ∀ x ∈ s.unrecognized, ∀ y ∈ marks3, x.funcIdx ≠ y.funcIdx := by
    intro x hx y hy heq
    have hx' := (h1.marks x.funcIdx).mp ⟨x, hx, rfl⟩
    have hy' := (h3.marks x.funcIdx).mp ⟨y, hy, heq.symm⟩
    exact hx'.2 hy'.2.1
  refine ⟨h1.strict.merge h3.strict hdisj, ?_, ?_, ?_⟩
  · intro i
    simp only [mergeSortedUnrecognized, mem_mergeBy, or_and_right, exists_or]
    rw [h1.marks, h3.marks]
    tauto
  · intro i hi ht hsize
    exact h1.region _ (h1.spans i hi ht hsize)
  · intro i hi j hj hti htj hsi hsj
    exact pass2_apart hpass2 (h1.spans i hi hti hsi) (h1.spans j hj htj hsj)

end HbcFile

/-! ## Accepted files -/

/-- A region that is not empty ends inside the buffer, and at the debug info
when that lies behind the sections. -/
theorem computeBytecodeRegion_spec {start debugInfoOffset bufLen : Nat} {region : Nat × Nat}
    (h : region = computeBytecodeRegion start debugInfoOffset bufLen) (hne : region.1 < region.2) :
    start = region.1 ∧ region.2 ≤ bufLen ∧
      (0 < debugInfoOffset → debugInfoOffset ≤ min bufLen u32Max → region.2 = debugInfoOffset) := by
  obtain ⟨lo, hi⟩ := region
  simp only [computeBytecodeRegion] at h
  by_cases hdebug : debugInfoOffset > 0 ∧ debugInfoOffset ≤ min bufLen u32Max
  · rw [if_pos hdebug] at h
    split at h <;> simp only [Prod.mk.injEq] at h <;> omega
  · rw [if_neg hdebug] at h
    split at h <;> simp only [Prod.mk.injEq] at h <;> omega

/-- Where a body of an accepted file lies. -/
structure HbcFile.BodyPlaced (f : HbcFile) (i : Nat) : Prop where
  region_start : f.bytecodeRegion.1 ≤ (f.body i).start
  region_end : (f.body i).stop ≤ f.bytecodeRegion.2
  in_buffer : (f.body i).stop ≤ f.buf.length
  after_sections : ∀ e ∈ f.sections, e.span.stop ≤ (f.body i).start
  before_debug_info : (∀ e ∈ f.sections, e.span.stop ≤ f.header.debugInfoOffset) →
    f.header.debugInfoOffset ≤ f.buf.length → (f.body i).stop ≤ f.header.debugInfoOffset

namespace ParseTrace

variable {boundCount : BoundCount} {buf : List UInt8} {f : HbcFile} {w : SectionWalk}
  {dbg : Option DebugInfoV96}

/-- Every region that the overlap test looks at ends at or before the walk's cursor. -/
theorem synthesizedSpans_stop_le (t : ParseTrace boundCount buf f w dbg) :
    ∀ x ∈ f.synthesizedSpans, x.stop ≤ w.cursor := by
  have hcursor := t.done.placed.cursor_ge
  intro x hx
  rw [t.file_eq] at hx
  rcases List.mem_cons.mp hx with rfl | hx
  · exact hcursor
  · obtain ⟨name, hname, rfl⟩ := List.mem_map.mp hx
    simp only [emitSynthesizedSections, List.mem_cons, List.not_mem_nil, or_false] at hname
    rcases hname with rfl | rfl | rfl | rfl | rfl <;> exact t.done.span_stop_le _

theorem spansBounded (t : ParseTrace boundCount buf f w dbg) : f.SpansBounded := by
  intro x hx
  have hstop := t.synthesizedSpans_stop_le x hx
  have hcursor := t.done.placed.cursor_le
  simp only [u32Max, u64Max] at *
  omega

theorem validated_marks (t : ParseTrace boundCount buf f w dbg) :
    f.Validated f.unrecognizedFunctions :=
  HbcFile.validated_of_ok (fun _ hi => t.entry_le hi) t.validated

/-- The marks are the functions that are not recognized. -/
theorem marks_iff_not_recognized (t : ParseTrace boundCount buf f w dbg) {i : Nat} :
    (∃ u ∈ f.unrecognizedFunctions, u.funcIdx = i) ↔ i < f.functionCount ∧ ¬ f.Recognized i := by
  rw [t.validated_marks.marks_iff]
  exact and_congr_right fun hi => not_congr (HbcFile.recognized_iff t.spansBounded hi).symm

/-- A function without a mark is recognized. -/
theorem recognized_of_not_marked (t : ParseTrace boundCount buf f w dbg) {i : Nat}
    (hi : i < f.functionCount) (hmark : ∀ u ∈ f.unrecognizedFunctions, u.funcIdx ≠ i) :
    f.Recognized i := by
  by_contra hnot
  obtain ⟨u, hu, heq⟩ := t.marks_iff_not_recognized.mpr ⟨hi, hnot⟩
  exact hmark u hu heq

theorem bodyPlaced (t : ParseTrace boundCount buf f w dbg) {i : Nat} (hi : i < f.functionCount)
    (ht : f.Trusted i) (hsize : (f.functionGet i).size ≠ 0) : f.BodyPlaced i := by
  obtain ⟨hlo, hhi⟩ := t.validated_marks.region i hi ht hsize
  have hpos : (f.body i).start < (f.body i).stop := by
    simp only [HbcFile.body, Span.stop]
    omega
  have hne : f.bytecodeRegion.1 < f.bytecodeRegion.2 := by omega
  obtain ⟨hcursor, hend, hdebug⟩ := computeBytecodeRegion_spec t.bytecodeRegion_eq hne
  have hsections : ∀ e ∈ f.sections, e.span.stop ≤ (f.body i).start := by
    intro e he
    rw [t.sections_eq] at he
    have := t.done.placed.stop_le_cursor e he
    omega
  refine ⟨hlo, hhi, by rw [t.buf_eq]; omega, hsections, ?_⟩
  intro hafter hinside
  -- the header section alone puts the debug info at a positive offset
  have hheader : (⟨.header, ⟨0, 128⟩⟩ : SectionEntry) ∈ f.sections := by
    rw [t.sections_eq]
    obtain ⟨added, hadded⟩ := SectionWalk.sections_prefix t.walk_ok
    rw [hadded]
    simp [SectionWalk.init]
  have hge := hafter _ hheader
  simp only [Span.stop] at hge
  have hle := t.headerOf.debugInfoOffset_le
  rw [t.buf_eq] at hinside
  have := hdebug (by omega) (by omega)
  omega

end ParseTrace

/-- The list of marks is strictly ascending and holds exactly the functions that
are not recognized; the binary search over it decides just that. -/
theorem parse_marks_exact {boundCount : BoundCount} {buf : List UInt8} {f : HbcFile}
    (h : parse boundCount buf = .ok f) :
    StrictBy UnrecognizedFunction.funcIdx f.unrecognizedFunctions ∧
    (∀ u ∈ f.unrecognizedFunctions, u.funcIdx < f.functionCount ∧ ¬ f.Recognized u.funcIdx) ∧
    (∀ i < f.functionCount, (∀ u ∈ f.unrecognizedFunctions, u.funcIdx ≠ i) → f.Recognized i) ∧
    ∀ i < f.functionCount, (f.isFunctionUnrecognized i = true ↔ ¬ f.Recognized i) := by
  obtain ⟨w, dbg, t⟩ := parse_eq_ok.mp h
  refine ⟨t.validated_marks.strict, ?_, ?_, ?_⟩
  · intro u hu
    exact t.marks_iff_not_recognized.mp ⟨u, hu, rfl⟩
  · intro i hi hmark
    exact t.recognized_of_not_marked hi hmark
  · intro i hi
    rw [HbcFile.isFunctionUnrecognized, HbcFile.hasFuncIdx_iff t.validated_marks.strict,
      t.marks_iff_not_recognized]
    exact and_iff_right hi

/-- A v96 file of three functions: one with an exception handler, one with an
overflow claim past the end of the file, and one plain. -/
def sampleBuffer : List UInt8 :=
  sampleHeader 96 [208, 0, 3]
    ++ [176, 0, 0, 2, 4, 0, 0, 0, 192, 0, 0, 0, 0, 0, 0, 0x08]
    ++ [232, 3, 0, 2, 4, 0, 0, 0, 0, 0, 0, 0, 0, 0, 0, 0x20]
    ++ [180, 0, 0, 2, 4, 0, 0, 0, 0, 0, 0, 0, 0, 0, 0, 0]
    ++ List.replicate 16 0
    ++ [1, 0, 0, 0, 0, 0, 0, 0, 2, 0, 0, 0, 3, 0, 0, 0]

theorem parse_marks_exact_sample : ∃ f, parse checkedBoundCount sampleBuffer = .ok f ∧
    f.Recognized 0 ∧ ¬ f.Recognized 1 ∧ f.Recognized 2 := by
  obtain ⟨f, hparse, hcheck⟩ := Loop.exists_of_okAnd
    (x := parse checkedBoundCount sampleBuffer)
    (p := fun f => f.functionCount = 3 ∧
      (List.range 3).map f.isFunctionUnrecognized = [false, true, false]) (by decide +kernel)
  simp only [decide_eq_true_eq, List.range, List.range.loop, List.map_cons, List.map_nil,
    List.cons.injEq, and_true] at hcheck
  obtain ⟨hcount, h0, h1, h2⟩ := hcheck
  obtain ⟨-, -, -, hiff⟩ := parse_marks_exact hparse
  refine ⟨f, hparse, ?_, ?_, ?_⟩
  · by_contra hnot
    have := (hiff 0 (by omega)).mpr hnot
    simp [h0] at this
  · exact (hiff 1 (by omega)).mp h1
  · by_contra hnot
    have := (hiff 2 (by omega)).mpr hnot
    simp [h2] at this

/-- The bodies of two functions without a mark lie in the bytecode region, behind
all sections, and coincide or are disjoint. -/
theorem parse_bodies_isolated {boundCount : BoundCount} {buf : List UInt8} {f : HbcFile} {i j : Nat}
    (h : parse boundCount buf = .ok f) (hi : i < f.functionCount) (hj : j < f.functionCount)
    (hmi : ∀ u ∈ f.unrecognizedFunctions, u.funcIdx ≠ i)
    (hmj : ∀ u ∈ f.unrecognizedFunctions, u.funcIdx ≠ j)
    (hsi : (f.functionGet i).size ≠ 0) (hsj : (f.functionGet j).size ≠ 0) :
    f.buf = buf ∧ f.BodyPlaced i ∧ f.BodyPlaced j ∧
      (f.body i = f.body j ∨ (f.body i).Disjoint (f.body j)) := by
  obtain ⟨w, dbg, t⟩ := parse_eq_ok.mp h
  have hti := ((HbcFile.recognized_iff t.spansBounded hi).mp (t.recognized_of_not_marked hi hmi)).1
  have htj := ((HbcFile.recognized_iff t.spansBounded hj).mp (t.recognized_of_not_marked hj hmj)).1
  exact ⟨t.buf_eq, t.bodyPlaced hi hti hsi, t.bodyPlaced hj htj hsj,
    t.validated_marks.apart i hi j hj hti htj hsi hsj⟩

theorem parse_bodies_isolated_sample : ∃ f, parse checkedBoundCount sampleBuffer = .ok f ∧
    f.BodyPlaced 0 ∧ f.BodyPlaced 2 ∧ (f.body 0 = f.body 2 ∨ (f.body 0).Disjoint (f.body 2)) := by
  obtain ⟨f, hparse, hcheck⟩ := Loop.exists_of_okAnd
    (x := parse checkedBoundCount sampleBuffer)
    (p := fun f => f.functionCount = 3 ∧
      f.unrecognizedFunctions.map UnrecognizedFunction.funcIdx = [1] ∧
      (f.functionGet 0).size ≠ 0 ∧ (f.functionGet 2).size ≠ 0) (by decide +kernel)
  simp only [decide_eq_true_eq] at hcheck
  obtain ⟨hcount, hmarks, hs0, hs2⟩ := hcheck
  have hone : ∀ u ∈ f.unrecognizedFunctions, u.funcIdx = 1 := fun u hu => by
    simpa [hmarks] using List.mem_map_of_mem (f := UnrecognizedFunction.funcIdx) hu
  obtain ⟨-, h⟩ := parse_bodies_isolated hparse (i := 0) (j := 2) (by omega) (by omega)
    (fun u hu => by rw [hone u hu]; decide) (fun u hu => by rw [hone u hu]; decide) hs0 hs2
  exact ⟨f, hparse, h⟩

end Hermes
