-- SUMMARY: Lists built by pushing a value unless it is the last one, alone and under the keys of a map.
import DroidsawHermes.Lib.OrdMap
import Mathlib.Data.List.Induction

/-!
# Runs of equal values

Pushing the values of a list one after the other, each unless it is the last one
pushed, leaves one value for each run of equal values. The result has no
duplicates exactly when equal values stand next to each other.
-/

namespace Runs

variable {α : Type} [DecidableEq α]

-- ---------------------------------------------------------------------------
-- Pushing
-- ---------------------------------------------------------------------------

/-- Append, unless the value is the last one. -/
def push (l : List α) (x : α) : List α := if l.getLast? = some x then l else l ++ [x]

/-- One value for each run. -/
def heads (l : List α) : List α := l.foldl push []

theorem heads_concat (l : List α) (x : α) : heads (l ++ [x]) = push (heads l) x := by
  simp [heads]

theorem getLast?_push (l : List α) (x : α) : (push l x).getLast? = some x := by
  simp only [push]
  split
  · next h => exact h
  · simp

theorem mem_push {l : List α} {x y : α} : y ∈ push l x ↔ y ∈ l ∨ y = x := by
  simp only [push]
  split
  · next h =>
    constructor
    · exact Or.inl
    · rintro (hmem | rfl)
      · exact hmem
      · exact List.mem_of_getLast? h
  · simp

theorem getLast?_heads (l : List α) : (heads l).getLast? = l.getLast? := by
  induction l using List.reverseRecOn with
  | nil => rfl
  | append_singleton l x _ => rw [heads_concat, getLast?_push, List.getLast?_concat]

@[simp]
theorem mem_heads {l : List α} {x : α} : x ∈ heads l ↔ x ∈ l := by
  induction l using List.reverseRecOn with
  | nil => simp [heads]
  | append_singleton l y ih => rw [heads_concat, mem_push, ih, List.mem_append, List.mem_singleton]

-- ---------------------------------------------------------------------------
-- Duplicates
-- ---------------------------------------------------------------------------

/-- Between two equal values there are only values equal to them. -/
def Contiguous (l : List α) : Prop :=
  ∀ a b c x, l = a ++ x :: (b ++ x :: c) → ∀ y ∈ b, y = x

omit [DecidableEq α] in
theorem contiguous_concat {l : List α} {z : α} :
    Contiguous (l ++ [z]) ↔ Contiguous l ∧ (z ∈ l → l.getLast? = some z) := by
  constructor
  · intro h
    constructor
    · rintro a b c x rfl
      exact h a b (c ++ [z]) x (by simp)
    · intro hmem
      obtain ⟨a, b, rfl⟩ := List.append_of_mem hmem
      have hall := h a b [] z (by simp)
      rcases List.eq_nil_or_concat' b with rfl | ⟨b', w, rfl⟩
      · simp
      · have hw : w = z := hall w (by simp)
        rw [hw, ← List.cons_append, ← List.append_assoc, List.getLast?_concat]
  · rintro ⟨hl, hlast⟩ a b c x heq y hy
    rcases List.eq_nil_or_concat' c with rfl | ⟨c', w, rfl⟩
    · have hsplit : l ++ [z] = (a ++ x :: b) ++ [x] := by simp [heq]
      obtain ⟨rfl, hz⟩ := List.append_inj' hsplit rfl
      obtain rfl : z = x := List.singleton_inj.mp hz
      have hend := hlast (by simp)
      rcases List.eq_nil_or_concat' b with rfl | ⟨b', w, rfl⟩
      · cases hy
      · obtain rfl : w = z := by
          rw [← List.cons_append, ← List.append_assoc, List.getLast?_concat] at hend
          exact Option.some.inj hend
        rcases List.mem_append.mp hy with hy | hy
        · exact hl a b' [] w (by simp) y hy
        · exact List.mem_singleton.mp hy
    · have hsplit : l ++ [z] = (a ++ x :: (b ++ x :: c')) ++ [w] := by simp [heq]
      obtain ⟨rfl, -⟩ := List.append_inj' hsplit rfl
      exact hl a b c' x rfl y hy

theorem heads_nodup_iff {l : List α} : (heads l).Nodup ↔ Contiguous l := by
  induction l using List.reverseRecOn with
  | nil =>
    refine ⟨fun _ a b c x h => ?_, fun _ => List.nodup_nil⟩
    cases a <;> cases h
  | append_singleton l z ih =>
    rw [heads_concat, contiguous_concat, ← ih, push, getLast?_heads]
    split
    · next hlast => exact ⟨fun h => ⟨h, fun _ => hlast⟩, And.left⟩
    · next hlast =>
      rw [← List.concat_eq_append, List.nodup_concat, mem_heads]
      constructor
      · rintro ⟨hmem, hnodup⟩
        exact ⟨hnodup, fun h => absurd h hmem⟩
      · rintro ⟨hnodup, himp⟩
        exact ⟨fun hmem => hlast (himp hmem), hnodup⟩

instance (l : List α) : Decidable (Contiguous l) := decidable_of_iff _ heads_nodup_iff

omit [DecidableEq α] in
theorem getLast?_of_max [LinearOrder α] {l : List α} {x : α} (hl : l.Pairwise (· ≤ ·))
    (hx : x ∈ l) (hmax : ∀ y ∈ l, y ≤ x) : l.getLast? = some x := by
  rcases List.eq_nil_or_concat' l with rfl | ⟨l', w, rfl⟩
  · cases hx
  · rw [List.getLast?_concat]
    rcases List.mem_append.mp hx with hx | hx
    · obtain ⟨-, -, hle⟩ := List.pairwise_append.mp hl
      rw [le_antisymm (hmax w (by simp)) (hle x hx w (by simp))]
    · rw [List.mem_singleton.mp hx]

/-- The values of an ascending list are pushed in strictly ascending order. -/
theorem heads_strict [LinearOrder α] {l : List α} (h : l.Pairwise (· ≤ ·)) :
    (heads l).Pairwise (· < ·) := by
  induction l using List.reverseRecOn with
  | nil => exact List.Pairwise.nil
  | append_singleton l z ih =>
    obtain ⟨hl, -, hz⟩ := List.pairwise_append.mp h
    rw [heads_concat, push, getLast?_heads]
    split
    · exact ih hl
    · next hlast =>
      refine List.pairwise_append.mpr ⟨ih hl, List.pairwise_singleton _ _, fun x hx y hy => ?_⟩
      obtain rfl := List.mem_singleton.mp hy
      have hxl := mem_heads.mp hx
      rcases lt_or_eq_of_le (hz x hxl y hy) with hlt | rfl
      · exact hlt
      · exact absurd (getLast?_of_max hl hxl fun w hw => hz w hw x hy) hlast

-- ---------------------------------------------------------------------------
-- Under the keys of a map
-- ---------------------------------------------------------------------------

variable {κ : Type} [LinearOrder κ]

/-- `entry(k).or_default()`, then push. -/
def pushAt (m : OrdMap κ (List α)) (k : κ) (x : α) : OrdMap κ (List α) :=
  m.insert k (push ((m.get? k).getD []) x)

theorem get?_pushAt (m : OrdMap κ (List α)) (a k : κ) (x : α) :
    (pushAt m a x).get? k = if k = a then some (push ((m.get? a).getD []) x) else m.get? k :=
  OrdMap.get?_insert m a _ k

/-- The values that a list of entries has for a key. -/
def valuesOf (k : κ) (l : List (κ × α)) : List α := (l.filter fun e => e.1 = k).map Prod.snd

omit [DecidableEq α] in
theorem mem_valuesOf {k : κ} {l : List (κ × α)} {x : α} : x ∈ valuesOf k l ↔ (k, x) ∈ l := by
  simp [valuesOf]

omit [DecidableEq α] in
theorem valuesOf_append (k : κ) (l l' : List (κ × α)) :
    valuesOf k (l ++ l') = valuesOf k l ++ valuesOf k l' := by
  simp [valuesOf]

omit [DecidableEq α] in
theorem valuesOf_map_self (k : κ) (l : List α) : valuesOf k (l.map (k, ·)) = l := by
  induction l with
  | nil => rfl
  | cons x l ih => simpa [valuesOf] using ih

omit [DecidableEq α] in
theorem valuesOf_map_ne {k a : κ} (h : a ≠ k) (l : List α) : valuesOf k (l.map (a, ·)) = [] := by
  induction l with
  | nil => rfl
  | cons x l ih => simp [valuesOf, h]

/-- After all pushes a key has one value for each run of its values. -/
theorem get?_foldl_pushAt (k : κ) (l : List (κ × α)) :
    (l.foldl (fun m e => pushAt m e.1 e.2) OrdMap.empty).get? k =
      if valuesOf k l = [] then none else some (heads (valuesOf k l)) := by
  induction l using List.reverseRecOn with
  | nil => rfl
  | append_singleton l e ih =>
    obtain ⟨a, x⟩ := e
    simp only [List.foldl_append, List.foldl_cons, List.foldl_nil, get?_pushAt]
    split
    · next hkey =>
      subst hkey
      have hvalues : valuesOf k (l ++ [(k, x)]) = valuesOf k l ++ [x] := by simp [valuesOf]
      rw [hvalues, if_neg (by simp), heads_concat, ih]
      split
      · next hnil => rw [hnil]; rfl
      · rfl
    · next hkey =>
      have hvalues : valuesOf k (l ++ [(a, x)]) = valuesOf k l := by
        have : ¬ a = k := fun h => hkey h.symm
        simp [valuesOf, this]
      rw [hvalues, ih]

end Runs
