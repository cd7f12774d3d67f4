-- SUMMARY: Lists edited in place: entries dropped by index, and lists that agree with another entry by entry.
import Mathlib.Data.List.Basic
import Mathlib.Data.List.Nodup
import Mathlib.Data.List.Forall2
import Mathlib.Algebra.Order.BigOperators.Group.List
import Mathlib.Algebra.Order.Ring.Nat

/-!
# Edits of lists

A pass over a list rewrites entries in place and then drops some by their index.
`removeAll` is the second half; `List.Forall₂` relates the two ends of the first.
-/

namespace Edits

variable {α β : Type}

-- ---------------------------------------------------------------------------
-- Dropping entries
-- ---------------------------------------------------------------------------

/-- The list without the entries at the indices in `rm`. -/
def removeAll (rm : List Nat) (l : List α) : List α :=
  (l.zipIdx.filter fun p => !rm.contains p.2).map Prod.fst

theorem mem_removeAll {rm : List Nat} {l : List α} {x : α} :
    x ∈ removeAll rm l ↔ ∃ i, l[i]? = some x ∧ i ∉ rm := by
  simp only [removeAll, List.mem_map, List.mem_filter, List.contains_eq_mem, Bool.not_eq_true',
    decide_eq_false_iff_not]
  constructor
  · rintro ⟨⟨y, i⟩, ⟨hmem, hrm⟩, rfl⟩
    exact ⟨i, List.mem_zipIdx_iff_getElem?.mp hmem, hrm⟩
  · rintro ⟨i, hget, hrm⟩
    exact ⟨(x, i), ⟨List.mem_zipIdx_iff_getElem?.mpr hget, hrm⟩, rfl⟩

theorem removeAll_sublist (rm : List Nat) (l : List α) : (removeAll rm l).Sublist l := by
  have h := (List.filter_sublist (p := fun p : α × Nat => !rm.contains p.2)
    (l := l.zipIdx)).map Prod.fst
  rwa [List.zipIdx_map_fst] at h

theorem removeAll_append_singleton {rm : List Nat} {l : List α} {x : α} (h : l.length ∉ rm) :
    removeAll rm (l ++ [x]) = removeAll rm l ++ [x] := by
  simp [removeAll, List.zipIdx_append, h]

/-- The last entry stays when its index does. -/
theorem getLast?_removeAll {rm : List Nat} {l : List α} {x : α} (hlast : l.getLast? = some x)
    (h : l.length - 1 ∉ rm) : (removeAll rm l).getLast? = some x := by
  obtain ⟨init, rfl⟩ := List.getLast?_eq_some_iff.mp hlast
  rw [removeAll_append_singleton (by simpa using h)]
  simp

theorem countP_removeAll_le (p : α → Bool) (rm : List Nat) (l : List α) :
    (removeAll rm l).countP p ≤ l.countP p := (removeAll_sublist rm l).countP_le

/-- A mark that no dropped entry has keeps its count. -/
theorem count_filterMap_removeAll [DecidableEq β] {rm : List Nat} {l : List α} {g : α → Option β}
    {d : β} (h : ∀ i ∈ rm, ∀ x, l[i]? = some x → g x ≠ some d) :
    ((removeAll rm l).filterMap g).count d = (l.filterMap g).count d := by
  have hcount : ∀ m : List α, (m.filterMap g).count d = m.countP fun x => g x == some d :=
    fun m => List.count_filterMap
  have hall : l.countP (fun x => g x == some d) =
      l.zipIdx.countP fun p => g p.1 == some d := by
    conv_lhs => rw [← List.zipIdx_map_fst 0 l, List.countP_map]
    rfl
  rw [hcount, hcount, hall, removeAll, List.countP_map, List.countP_filter]
  apply List.countP_congr
  rintro ⟨x, i⟩ hmem
  have hx := List.mem_zipIdx_iff_getElem?.mp hmem
  by_cases hi : i ∈ rm
  · simpa [hi] using h i hi x hx
  · simp [hi]

-- ---------------------------------------------------------------------------
-- Lists that agree entry by entry
-- ---------------------------------------------------------------------------

theorem forall₂_getElem? {R : α → β → Prop} {l : List α} {l' : List β}
    (h : List.Forall₂ R l l') {i : Nat} {x : α} (hget : l[i]? = some x) :
    ∃ y, l'[i]? = some y ∧ R x y := by
  induction h generalizing i with
  | nil => simp at hget
  | cons hxy htail ih =>
    cases i with
    | zero =>
      simp only [List.getElem?_cons_zero, Option.some.injEq] at hget
      subst hget
      exact ⟨_, rfl, hxy⟩
    | succ i => simpa using ih (by simpa using hget)

theorem forall₂_getElem?_right {R : α → β → Prop} {l : List α} {l' : List β}
    (h : List.Forall₂ R l l') {i : Nat} {y : β} (hget : l'[i]? = some y) :
    ∃ x, l[i]? = some x ∧ R x y :=
  forall₂_getElem? h.flip hget

theorem forall₂_getLast? {R : α → β → Prop} {l : List α} {l' : List β}
    (h : List.Forall₂ R l l') {x : α} (hlast : l.getLast? = some x) :
    ∃ y, l'.getLast? = some y ∧ R x y := by
  rw [List.getLast?_eq_getElem?] at hlast
  rw [List.getLast?_eq_getElem?, ← h.length_eq]
  exact forall₂_getElem? h hlast

theorem forall₂_zipIdx_map {R : α → β → Prop} {l : List α} {f : α × Nat → β}
    (h : ∀ i x, l[i]? = some x → R x (f (x, i))) : List.Forall₂ R l (l.zipIdx.map f) := by
  refine List.forall₂_iff_get.mpr ⟨by simp, fun i hi hi' => ?_⟩
  simpa using h i l[i] (List.getElem?_eq_getElem hi)

theorem forall₂_comp {γ : Type} {R : α → β → Prop} {S : β → γ → Prop} {T : α → γ → Prop}
    {l : List α} {l' : List β} {l'' : List γ} (h : List.Forall₂ R l l') (h' : List.Forall₂ S l' l'')
    (hcomp : ∀ x y z, R x y → S y z → T x z) : List.Forall₂ T l l'' := by
  induction h generalizing l'' with
  | nil =>
    cases h'
    exact List.Forall₂.nil
  | cons hxy _ ih =>
    cases h' with
    | cons hyz htail => exact List.Forall₂.cons (hcomp _ _ _ hxy hyz) (ih htail)

theorem forall₂_map_right {R S : α → β → Prop} {l : List α} {l' : List β} {f : β → β}
    (h : List.Forall₂ R l l') (hf : ∀ x y, R x y → S x (f y)) : List.Forall₂ S l (l'.map f) :=
  List.forall₂_map_right_iff.mpr (h.imp fun x y hxy => hf x y hxy)

theorem forall₂_modify {R : α → β → Prop} {l : List α} {l' : List β} {i : Nat} {f : β → β}
    (h : List.Forall₂ R l l') (hf : ∀ x y, l[i]? = some x → R x y → R x (f y)) :
    List.Forall₂ R l (l'.modify i f) := by
  induction h generalizing i with
  | nil => simp
  | @cons x y l l' hxy htail ih =>
    cases i with
    | zero =>
      rw [List.modify_zero_cons]
      exact List.Forall₂.cons (hf x y rfl hxy) htail
    | succ i =>
      rw [List.modify_succ_cons]
      exact List.Forall₂.cons hxy (ih fun x y hx => hf x y (by simpa using hx))

/-- Where a test holds at most once, it holds at one index. -/
theorem index_unique {p : α → Bool} {l : List α} (hcount : l.countP p ≤ 1) {i j : Nat} {x y : α}
    (hi : l[i]? = some x) (hj : l[j]? = some y) (hx : p x = true) (hy : p y = true) : i = j := by
  induction l generalizing i j with
  | nil => simp at hi
  | cons z l ih =>
    rw [List.countP_cons] at hcount
    have hnone : ∀ {k : Nat} {w : α}, p z = true → l[k]? = some w → p w ≠ true := by
      intro k w hz hk hw
      have hpos := List.countP_pos_iff.mpr ⟨w, List.mem_of_getElem? hk, hw⟩
      rw [if_pos hz] at hcount
      omega
    cases i with
    | zero =>
      cases j with
      | zero => rfl
      | succ j =>
        simp only [List.getElem?_cons_zero, Option.some.injEq] at hi
        exact absurd hy (hnone (hi ▸ hx) (by simpa using hj))
    | succ i =>
      cases j with
      | zero =>
        simp only [List.getElem?_cons_zero, Option.some.injEq] at hj
        exact absurd hx (hnone (hj ▸ hy) (by simpa using hi))
      | succ j =>
        have heq := ih (Nat.le_trans (Nat.le_add_right _ _) hcount) (by simpa using hi)
          (by simpa using hj)
        rw [heq]

/-- Two entries of a list of numbers are part of its sum. -/
theorem add_le_sum {l : List Nat} {i j a b : Nat} (hi : l[i]? = some a) (hj : l[j]? = some b)
    (hne : i ≠ j) : a + b ≤ l.sum := by
  have hle : ∀ {l : List Nat} {k c : Nat}, l[k]? = some c → c ≤ l.sum := fun hk =>
    List.le_sum_of_mem (List.mem_of_getElem? hk)
  induction l generalizing i j with
  | nil => simp at hi
  | cons c l ih =>
    rw [List.sum_cons]
    cases i with
    | zero =>
      cases j with
      | zero => exact absurd rfl hne
      | succ j =>
        rw [List.getElem?_cons_zero, Option.some.injEq] at hi
        rw [List.getElem?_cons_succ] at hj
        exact Nat.add_le_add (Nat.le_of_eq hi.symm) (hle hj)
    | succ i =>
      rw [List.getElem?_cons_succ] at hi
      cases j with
      | zero =>
        rw [List.getElem?_cons_zero, Option.some.injEq] at hj
        rw [Nat.add_comm]
        exact Nat.add_le_add (Nat.le_of_eq hj.symm) (hle hi)
      | succ j =>
        rw [List.getElem?_cons_succ] at hj
        exact Nat.le_trans (ih hi hj fun heq => hne (heq ▸ rfl)) (Nat.le_add_left _ _)

theorem forall₂_countP_le {R : α → β → Prop} {l : List α} {l' : List β} {p : α → Bool}
    {q : β → Bool} (h : List.Forall₂ R l l') (hpq : ∀ x y, R x y → q y = true → p x = true) :
    l'.countP q ≤ l.countP p := by
  induction h with
  | nil => simp
  | @cons x y l l' hxy _ ih =>
    rw [List.countP_cons, List.countP_cons]
    by_cases hq : q y = true
    · simp only [hq, hpq x y hxy hq, if_true]
      omega
    · rw [if_neg hq, Nat.add_zero]
      exact Nat.le_add_right_of_le ih

theorem forall₂_map_self {R : α → α → Prop} {f : α → α} {l : List α}
    (h : ∀ x ∈ l, R x (f x)) : List.Forall₂ R l (l.map f) := by
  rw [List.forall₂_map_right_iff, List.forall₂_same]
  exact h

end Edits
