-- SUMMARY: Scans of a list that look ahead and skip what they have consumed.
import Mathlib.Data.List.Basic

/-!
# Scans

A scan goes through a list from the left. At each element it emits some output and
consumes some of what follows.
-/

namespace Scan

variable {α β : Type} (step : α → List α → List β × Nat)

/-- The output, after `skip` elements that are already consumed. -/
def scan : Nat → List α → List β
  | _, [] => []
  | skip + 1, _ :: rest => scan skip rest
  | 0, x :: rest => (step x rest).1 ++ scan (step x rest).2 rest

/-- The places where the scan looks: an element with what follows it. -/
def visited : Nat → List α → List (α × List α)
  | _, [] => []
  | skip + 1, _ :: rest => visited skip rest
  | 0, x :: rest => (x, rest) :: visited (step x rest).2 rest

theorem scan_drop (skip : Nat) (l : List α) : scan step skip l = scan step 0 (l.drop skip) := by
  induction l generalizing skip with
  | nil => simp [scan]
  | cons x rest ih =>
    cases skip with
    | zero => rfl
    | succ skip => exact ih skip

theorem visited_drop (skip : Nat) (l : List α) :
    visited step skip l = visited step 0 (l.drop skip) := by
  induction l generalizing skip with
  | nil => simp [visited]
  | cons x rest ih =>
    cases skip with
    | zero => rfl
    | succ skip => exact ih skip

@[simp] theorem scan_nil : scan step 0 [] = [] := rfl

theorem scan_cons (x : α) (rest : List α) :
    scan step 0 (x :: rest) = (step x rest).1 ++ scan step 0 (rest.drop (step x rest).2) := by
  rw [scan, scan_drop]

theorem visited_cons (x : α) (rest : List α) :
    visited step 0 (x :: rest) = (x, rest) :: visited step 0 (rest.drop (step x rest).2) := by
  rw [visited, visited_drop]

/-- Induction along a scan: the rest of the list is what the step left over. -/
theorem scan_induction {motive : List α → Prop} (nil : motive [])
    (cons : ∀ x rest, motive (rest.drop (step x rest).2) → motive (x :: rest)) (l : List α) :
    motive l := by
  induction h : l.length using Nat.strongRecOn generalizing l with
  | ind n ih =>
    cases l with
    | nil => exact nil
    | cons x rest =>
      refine cons x rest (ih _ ?_ _ rfl)
      rw [List.length_drop, ← h, List.length_cons]
      omega

/-- A run of elements and what is left of the list. -/
theorem takeWhile_append_drop (p : α → Bool) (l : List α) :
    l.takeWhile p ++ l.drop (l.takeWhile p).length = l := by
  induction l with
  | nil => rfl
  | cons x l ih =>
    cases hx : p x with
    | true => simp [hx, ih]
    | false => simp [hx]

theorem drop_takeWhile (p : α → Bool) (l : List α) :
    l.drop (l.takeWhile p).length = l.dropWhile p :=
  List.append_cancel_left ((takeWhile_append_drop p l).trans List.takeWhile_append_dropWhile.symm)

/-- Elements that every step keeps, whatever follows them, stay in front of the rest. -/
theorem scan_append_of_kept {step : α → List α → List α × Nat} {kept : List α} (rest : List α)
    (h : ∀ x ∈ kept, ∀ rest, step x rest = ([x], 0)) :
    scan step 0 (kept ++ rest) = kept ++ scan step 0 rest := by
  induction kept with
  | nil => rfl
  | cons x kept ih =>
    have hx := h x List.mem_cons_self (kept ++ rest)
    rw [List.cons_append, scan_cons, hx, List.drop_zero,
      ih fun y hy => h y (List.mem_cons_of_mem x hy)]
    rfl

/-! ## Runs of elements at their places -/

section Places

variable (l : List α) (p : α × Nat → Bool)

/-- What is left behind a place begins with the element there. -/
theorem drop_zipIdx_getElem? (k : Nat) :
    l.zipIdx.drop k = (l[k]?.map fun x => (x, k)).toList ++ l.zipIdx.drop (k + 1) := by
  by_cases hk : k < l.length
  · rw [List.drop_eq_getElem_cons (by simpa using hk)]
    simp [hk]
  · have hend : l.length ≤ k := by omega
    simp [hend, Nat.le_succ_of_le hend]

theorem mem_take_drop_zipIdx {k n : Nat} {y : α × Nat} :
    y ∈ (l.zipIdx.drop k).take n ↔ k ≤ y.2 ∧ y.2 < k + n ∧ l[y.2]? = some y.1 := by
  rw [List.mem_iff_getElem?]
  constructor
  · rintro ⟨i, hi⟩
    rw [List.getElem?_take] at hi
    split at hi
    · next hlt =>
      rw [List.getElem?_drop, List.getElem?_zipIdx, Option.map_eq_some_iff] at hi
      obtain ⟨x, hx, rfl⟩ := hi
      exact ⟨by simp, by simpa using hlt, by simpa using hx⟩
    · cases hi
  · rintro ⟨hk, hlt, hget⟩
    refine ⟨y.2 - k, ?_⟩
    rw [List.getElem?_take_of_lt (by omega), List.getElem?_drop, Nat.add_sub_cancel' hk,
      List.getElem?_zipIdx, hget]
    simp

theorem mem_drop_zipIdx {k : Nat} {y : α × Nat} :
    y ∈ l.zipIdx.drop k ↔ k ≤ y.2 ∧ l[y.2]? = some y.1 := by
  have htake : (l.zipIdx.drop k).take l.length = l.zipIdx.drop k :=
    List.take_of_length_le (by simp)
  rw [← htake, mem_take_drop_zipIdx]
  refine and_congr_right fun _ => and_iff_right_of_imp fun hget => ?_
  have hlt := (List.getElem?_eq_some_iff.mp hget).1
  omega

/-- A run from a place on: all its elements have the property, and the one behind it has not. -/
theorem takeWhile_drop_zipIdx (k : Nat) :
    (∀ j, k ≤ j → j < k + ((l.zipIdx.drop k).takeWhile p).length →
      ∃ x, l[j]? = some x ∧ p (x, j) = true) ∧
    (∀ x, l[k + ((l.zipIdx.drop k).takeWhile p).length]? = some x →
      p (x, k + ((l.zipIdx.drop k).takeWhile p).length) = false) ∧
    ∀ y, y ∈ (l.zipIdx.drop k).takeWhile p ↔
      k ≤ y.2 ∧ y.2 < k + ((l.zipIdx.drop k).takeWhile p).length ∧ l[y.2]? = some y.1 := by
  have htake := List.prefix_iff_eq_take.mp (List.takeWhile_prefix p (l := l.zipIdx.drop k))
  have hmem : ∀ y, y ∈ (l.zipIdx.drop k).takeWhile p ↔
      k ≤ y.2 ∧ y.2 < k + ((l.zipIdx.drop k).takeWhile p).length ∧ l[y.2]? = some y.1 := by
    intro y
    conv_lhs => rw [htake]
    exact mem_take_drop_zipIdx l
  refine ⟨fun j hj hlt => ?_, fun x hx => ?_, hmem⟩
  · have hlength := (List.takeWhile_prefix p (l := l.zipIdx.drop k)).length_le
    rw [List.length_drop, List.length_zipIdx] at hlength
    have hget : l[j]? = some l[j] := List.getElem?_eq_getElem (by omega)
    exact ⟨l[j], hget, List.all_eq_true.mp List.all_takeWhile _ ((hmem (l[j], j)).mpr ⟨hj, hlt, hget⟩)⟩
  · -- The element behind the run begins what `dropWhile` leaves.
    have hhead := List.head?_dropWhile_not p (l.zipIdx.drop k)
    have hdrop : (l.zipIdx.drop k).dropWhile p =
        (l.zipIdx.drop k).drop ((l.zipIdx.drop k).takeWhile p).length :=
      (List.drop_left.symm).trans (congrArg (List.drop _) List.takeWhile_append_dropWhile)
    rw [hdrop, List.head?_drop, List.getElem?_drop, List.getElem?_zipIdx, hx] at hhead
    simpa using hhead
end Places

/-! ## Scans with a state -/

section State

variable {σ : Type} (step : σ → α → List α → σ × List β × Nat)

/-- A scan whose steps pass a state on. -/
def scanWith : σ → Nat → List α → List β
  | _, _, [] => []
  | s, skip + 1, _ :: rest => scanWith s skip rest
  | s, 0, x :: rest => (step s x rest).2.1 ++ scanWith (step s x rest).1 (step s x rest).2.2 rest

theorem scanWith_drop (s : σ) (skip : Nat) (l : List α) :
    scanWith step s skip l = scanWith step s 0 (l.drop skip) := by
  induction l generalizing skip with
  | nil => simp [scanWith]
  | cons x rest ih =>
    cases skip with
    | zero => rfl
    | succ skip => exact ih skip

@[simp] theorem scanWith_nil (s : σ) : scanWith step s 0 [] = [] := rfl

theorem scanWith_cons (s : σ) (x : α) (rest : List α) :
    scanWith step s 0 (x :: rest) = (step s x rest).2.1 ++
      scanWith step (step s x rest).1 0 (rest.drop (step s x rest).2.2) := by
  rw [scanWith, scanWith_drop]

theorem scanWith_induction {motive : σ → List α → Prop} (nil : ∀ s, motive s [])
    (cons : ∀ s x rest, motive (step s x rest).1 (rest.drop (step s x rest).2.2) →
      motive s (x :: rest)) (s : σ) (l : List α) : motive s l := by
  induction h : l.length using Nat.strongRecOn generalizing s l with
  | ind n ih =>
    cases l with
    | nil => exact nil s
    | cons x rest =>
      refine cons s x rest (ih _ ?_ _ _ rfl)
      rw [List.length_drop, ← h, List.length_cons]
      omega

/-- What is emitted comes from a step at a place of the list, where the invariant holds of the
state and of what is left. -/
theorem exists_place_of_mem_scanWith (inv : σ → List α → Prop)
    (hstep : ∀ s x rest, inv s (x :: rest) →
      inv (step s x rest).1 (rest.drop (step s x rest).2.2)) {s : σ} {l : List α} {y : β}
    (hinv : inv s l) (hy : y ∈ scanWith step s 0 l) :
    ∃ s x rest, inv s (x :: rest) ∧ (x :: rest) <:+ l ∧ y ∈ (step s x rest).2.1 := by
  induction s, l using scanWith_induction step with
  | nil s => cases hy
  | cons s x rest ih =>
    rw [scanWith_cons, List.mem_append] at hy
    rcases hy with hhere | hlater
    · exact ⟨s, x, rest, hinv, List.suffix_rfl, hhere⟩
    · obtain ⟨s', x', rest', hinv', hsuffix, hy⟩ := ih (hstep s x rest hinv) hlater
      exact ⟨s', x', rest', hinv',
        hsuffix.trans ((List.drop_suffix _ _).trans (List.suffix_cons x rest)), hy⟩

theorem exists_step_of_mem_scanWith (inv : σ → Prop)
    (hstep : ∀ s x rest, inv s → inv (step s x rest).1) {s : σ} {l : List α} {y : β}
    (hinv : inv s) (hy : y ∈ scanWith step s 0 l) :
    ∃ s x rest, inv s ∧ (x :: rest) <:+ l ∧ y ∈ (step s x rest).2.1 :=
  exists_place_of_mem_scanWith step (fun s _ => inv s) hstep hinv hy

end State

end Scan
