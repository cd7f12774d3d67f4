-- SUMMARY: Lists sorted by a key: binary search, merging, and what adjacent checks say about every pair.
import Mathlib.Data.List.Basic
import Mathlib.Data.List.Chain

/-!
# Sorted lists

Binary search over a list strictly sorted by a natural key decides membership,
and a sorted merge of two key-disjoint lists is strictly sorted again.
-/

namespace Sorted

variable {α : Type}

/-- Strictly ascending in the key. -/
def StrictBy (key : α → Nat) (l : List α) : Prop := l.Pairwise fun x y => key x < key y

-- ---------------------------------------------------------------------------
-- Binary search
-- ---------------------------------------------------------------------------

/-- The halving loop: the window `[base, base + size)` shrinks to one element. -/
def searchLoop (key : α → Nat) (k : Nat) (l : List α) : Nat → Nat → Nat → Nat
  | 0, base, _ => base
  | fuel + 1, base, size =>
    if size ≤ 1 then base
    else
      let half := size / 2
      let mid := base + half
      match l[mid]? with
      | none => base
      | some x => searchLoop key k l fuel (if k < key x then base else mid) (size - half)

/-- The position of an element with the key, when the search finds one. -/
def binarySearchByKey (key : α → Nat) (k : Nat) (l : List α) : Option Nat :=
  let base := searchLoop key k l l.length 0 l.length
  match l[base]? with
  | none => none
  | some x => if key x = k then some base else none

theorem StrictBy.key_lt {key : α → Nat} {l : List α} (h : StrictBy key l) {i j : Nat} {x y : α}
    (hx : l[i]? = some x) (hy : l[j]? = some y) (hij : i < j) : key x < key y := by
  obtain ⟨hi, rfl⟩ := List.getElem?_eq_some_iff.mp hx
  obtain ⟨hj, rfl⟩ := List.getElem?_eq_some_iff.mp hy
  exact List.pairwise_iff_getElem.mp h i j hi hj hij

/-- The window keeps the wanted position. -/
private theorem searchLoop_eq {key : α → Nat} {l : List α} (h : StrictBy key l) {p : Nat} {y : α}
    (hy : l[p]? = some y) :
    ∀ fuel base size, size ≤ fuel → base + size ≤ l.length → base ≤ p → p < base + size →
      searchLoop key (key y) l fuel base size = p := by
  intro fuel
  induction fuel with
  | zero =>
    intro base size hsize _ hlo hhi
    omega
  | succ fuel ih =>
    intro base size hsize hlen hlo hhi
    simp only [searchLoop]
    split
    · omega
    · rename_i hlt
      have hmid : base + size / 2 < l.length := by omega
      rw [List.getElem?_eq_getElem hmid]
      have hx : l[base + size / 2]? = some l[base + size / 2] := List.getElem?_eq_getElem hmid
      by_cases hkey : key y < key l[base + size / 2]
      · have hp : p < base + size / 2 := by
          rcases Nat.lt_trichotomy p (base + size / 2) with hp | hp | hp
          · exact hp
          · have : y = l[base + size / 2] := Option.some.inj (by rw [← hy, ← hx, hp])
            rw [this] at hkey
            omega
          · have := h.key_lt hx hy hp
            omega
        simp only [hkey, if_true]
        exact ih _ _ (by omega) (by omega) hlo (by omega)
      · have hp : base + size / 2 ≤ p := by
          rcases Nat.lt_or_ge p (base + size / 2) with hp | hp
          · have := h.key_lt hy hx hp
            omega
          · exact hp
        simp only [hkey, if_false]
        exact ih _ _ (by omega) (by omega) hp (by omega)

/-- On a strictly sorted list, binary search finds a key exactly when it is there. -/
theorem binarySearchByKey_isSome_iff {key : α → Nat} {l : List α} (h : StrictBy key l) (k : Nat) :
    (binarySearchByKey key k l).isSome ↔ ∃ x ∈ l, key x = k := by
  constructor
  · intro hs
    simp only [binarySearchByKey] at hs
    split at hs
    · cases hs
    · rename_i x hx
      split at hs
      · exact ⟨x, List.mem_of_getElem? hx, by assumption⟩
      · cases hs
  · rintro ⟨y, hmem, rfl⟩
    obtain ⟨p, hy⟩ := List.getElem?_of_mem hmem
    have hp : p < l.length := (List.getElem?_eq_some_iff.mp hy).1
    have hbase := searchLoop_eq h hy l.length 0 l.length (by omega) (by omega) (by omega) (by omega)
    simp only [binarySearchByKey, hbase, hy, if_true, Option.isSome_some]

-- ---------------------------------------------------------------------------
-- Appending and merging
-- ---------------------------------------------------------------------------

theorem StrictBy.concat {key : α → Nat} {l : List α} (h : StrictBy key l) {x : α}
    (hx : ∀ y ∈ l, key y < key x) : StrictBy key (l ++ [x]) := by
  simp only [StrictBy, List.pairwise_append, List.pairwise_singleton, true_and]
  exact ⟨h, fun y hy z hz => by
    rw [List.mem_singleton] at hz
    rw [hz]
    exact hx y hy⟩

/-- Merge a list with head `x` and a tail that is merged by `tail`. -/
def mergeInto (key : α → Nat) (x : α) (tail : List α → List α) : List α → List α
  | [] => x :: tail []
  | y :: ys => if key x ≤ key y then x :: tail (y :: ys) else y :: mergeInto key x tail ys

/-- Two-way merge by key, the left list first on equal keys. -/
def mergeBy (key : α → Nat) : List α → List α → List α
  | [], ys => ys
  | x :: xs, ys => mergeInto key x (mergeBy key xs) ys

theorem mergeBy_eq_merge (key : α → Nat) (a b : List α) :
    mergeBy key a b = List.merge a b fun x y => key x ≤ key y := by
  induction a generalizing b with
  | nil => simp [mergeBy]
  | cons x xs ih =>
    rw [mergeBy]
    induction b with
    | nil => simp [mergeInto, ih]
    | cons y ys ihy =>
      rw [mergeInto, List.cons_merge_cons, ih, ihy]
      simp only [decide_eq_true_eq]

theorem mem_mergeBy {key : α → Nat} {a b : List α} {x : α} :
    x ∈ mergeBy key a b ↔ x ∈ a ∨ x ∈ b := by
  rw [mergeBy_eq_merge, List.mem_merge]

/-- Merging two strictly sorted lists without a common key. -/
theorem StrictBy.merge {key : α → Nat} {a b : List α} (ha : StrictBy key a) (hb : StrictBy key b)
    (hdisj : ∀ x ∈ a, ∀ y ∈ b, key x ≠ key y) : StrictBy key (mergeBy key a b) := by
  rw [mergeBy_eq_merge]
  have hle : (List.merge a b fun x y => key x ≤ key y).Pairwise fun x y => decide (key x ≤ key y) = true := by
    apply List.pairwise_merge
    · intro x y z hxy hyz
      simp only [decide_eq_true_eq] at *
      omega
    · intro x y
      simp only [Bool.or_eq_true, decide_eq_true_eq]
      omega
    · exact ha.imp fun h => by simpa using Nat.le_of_lt h
    · exact hb.imp fun h => by simpa using Nat.le_of_lt h
  have hne : (List.merge a b fun x y => key x ≤ key y).Pairwise fun x y => key x ≠ key y := by
    have happ : (a ++ b).Pairwise fun x y => key x ≠ key y := by
      rw [List.pairwise_append]
      exact ⟨ha.imp Nat.ne_of_lt, hb.imp Nat.ne_of_lt, hdisj⟩
    exact (List.merge_perm_append _).symm.pairwise happ fun h => h.symm
  refine (hle.and hne).imp ?_
  rintro x y ⟨hxy, hxne⟩
  simp only [decide_eq_true_eq] at hxy
  omega

-- ---------------------------------------------------------------------------
-- Adjacent pairs
-- ---------------------------------------------------------------------------

/-- `windows(2)`: the adjacent pairs of a list. -/
def windows2 : List α → List (α × α)
  | x :: y :: rest => (x, y) :: windows2 (y :: rest)
  | _ => []

/-- A transitive relation that holds of every adjacent pair holds of every pair. -/
theorem pairwise_of_windows2 {R : α → α → Prop} {l : List α}
    (htrans : ∀ x y z, x ∈ l → y ∈ l → z ∈ l → R x y → R y z → R x z)
    (h : ∀ p ∈ windows2 l, R p.1 p.2) : l.Pairwise R := by
  induction l with
  | nil => exact List.Pairwise.nil
  | cons x l ih =>
    have htail : l.Pairwise R := by
      apply ih
      · intro a b c ha hb hc
        exact htrans a b c (by simp [ha]) (by simp [hb]) (by simp [hc])
      · intro p hp
        cases l with
        | nil => simp [windows2] at hp
        | cons y rest => exact h p (List.mem_cons_of_mem _ hp)
    refine List.pairwise_cons.mpr ⟨?_, htail⟩
    cases l with
    | nil => simp
    | cons y rest =>
      have hxy : R x y := h (x, y) (by simp [windows2])
      intro z hz
      rcases List.mem_cons.mp hz with rfl | hz'
      · exact hxy
      · exact htrans x y z (by simp) (by simp) (by simp [hz'])
          hxy ((List.pairwise_cons.mp htail).1 z hz')

end Sorted
