-- SUMMARY: Ranges that tile an interval in order, and the cutting of a list before its marked elements.
import Mathlib.Data.List.Basic
import Mathlib.Data.List.Pairwise
import Mathlib.Data.List.Nodup
import Mathlib.Data.Nat.Basic
import Mathlib.Order.Basic

/-!
# Segments

`Tiles` says of a list that the ranges of its elements follow each other without a
gap. `cut` starts a new part at every marked element. Parts of a tiled list tile
the same interval.
-/

namespace Segments

variable {α : Type}

-- ---------------------------------------------------------------------------
-- Tiling
-- ---------------------------------------------------------------------------

/-- The ranges `[start a, stop a)` follow each other from `lo` to `hi`. -/
def Tiles (start stop : α → Nat) : Nat → Nat → List α → Prop
  | lo, hi, [] => lo = hi
  | lo, hi, a :: l => start a = lo ∧ start a < stop a ∧ Tiles start stop (stop a) hi l

variable {start stop : α → Nat}

theorem tiles_append {lo hi : Nat} {l l' : List α} :
    Tiles start stop lo hi (l ++ l') ↔
      ∃ mid, Tiles start stop lo mid l ∧ Tiles start stop mid hi l' := by
  induction l generalizing lo with
  | nil => simp [Tiles]
  | cons a l ih =>
    simp only [List.cons_append, Tiles, ih]
    constructor
    · rintro ⟨hstart, hlt, mid, hl, hl'⟩
      exact ⟨mid, ⟨hstart, hlt, hl⟩, hl'⟩
    · rintro ⟨mid, ⟨hstart, hlt, hl⟩, hl'⟩
      exact ⟨hstart, hlt, mid, hl, hl'⟩

namespace Tiles

variable {lo hi : Nat} {l : List α}

theorem le (h : Tiles start stop lo hi l) : lo ≤ hi := by
  induction l generalizing lo with
  | nil => exact h.le
  | cons a l ih =>
    obtain ⟨rfl, hlt, hl⟩ := h
    exact hlt.le.trans (ih hl)

theorem bounds (h : Tiles start stop lo hi l) {a : α} (ha : a ∈ l) :
    lo ≤ start a ∧ start a < stop a ∧ stop a ≤ hi := by
  induction l generalizing lo with
  | nil => cases ha
  | cons b l ih =>
    obtain ⟨rfl, hlt, hl⟩ := h
    rcases List.mem_cons.mp ha with rfl | ha
    · exact ⟨Nat.le_refl _, hlt, hl.le⟩
    · obtain ⟨hlo, hmid, hhi⟩ := ih hl ha
      exact ⟨hlt.le.trans hlo, hmid, hhi⟩

/-- Each range ends at or before the later ones start. -/
theorem ordered (h : Tiles start stop lo hi l) :
    l.Pairwise fun a b => stop a ≤ start b := by
  induction l generalizing lo with
  | nil => exact List.Pairwise.nil
  | cons a l ih =>
    obtain ⟨-, -, hl⟩ := h
    exact List.pairwise_cons.mpr ⟨fun b hb => (hl.bounds hb).1, ih hl⟩

theorem starts_sorted (h : Tiles start stop lo hi l) :
    l.Pairwise fun a b => start a < start b := by
  refine h.ordered.imp_of_mem fun ha _ hle => ?_
  exact Nat.lt_of_lt_of_le (h.bounds ha).2.1 hle

/-- An element is known by its start. -/
theorem start_inj (h : Tiles start stop lo hi l) {a b : α} (ha : a ∈ l) (hb : b ∈ l)
    (heq : start a = start b) : a = b := by
  have hnodup : (l.map start).Nodup :=
    List.pairwise_map.mpr (h.starts_sorted.imp fun hlt => Nat.ne_of_lt hlt)
  exact List.inj_on_of_nodup_map hnodup ha hb heq

theorem start_head (h : Tiles start stop lo hi l) (hne : l ≠ []) : start (l.head hne) = lo := by
  cases l with
  | nil => exact absurd rfl hne
  | cons a l => exact h.1

/-- What ends at the first range of the rest ends where the rest starts. -/
theorem stop_getLast (h : Tiles start stop lo hi l) (hne : l ≠ []) : stop (l.getLast hne) = hi := by
  induction l generalizing lo with
  | nil => exact absurd rfl hne
  | cons a l ih =>
    obtain ⟨-, -, hl⟩ := h
    cases l with
    | nil => exact hl
    | cons b l =>
      rw [List.getLast_cons (List.cons_ne_nil b l)]
      exact ih hl _

theorem chain (h : Tiles start stop lo hi l) : l.IsChain fun a b => stop a = start b := by
  induction l generalizing lo with
  | nil => exact .nil
  | cons a l ih =>
    obtain ⟨-, -, hl⟩ := h
    cases l with
    | nil => exact .singleton a
    | cons b l => exact List.isChain_cons_cons.mpr ⟨hl.1.symm, ih hl⟩

/-- The range behind `a` starts where `a` ends. -/
theorem start_next (h : Tiles start stop lo hi l) {i : Nat} {a : α} (ha : l[i]? = some a) :
    (l[i + 1]?).map start = if stop a < hi then some (stop a) else none := by
  induction l generalizing lo i with
  | nil => simp at ha
  | cons c l ih =>
    obtain ⟨-, -, hl⟩ := h
    cases i with
    | succ i =>
      simp only [List.getElem?_cons_succ] at ha ⊢
      exact ih hl ha
    | zero =>
      simp only [List.getElem?_cons_zero, Option.some.injEq] at ha
      subst ha
      cases l with
      | nil =>
        have hend : stop c = hi := hl
        simp [hend]
      | cons b l =>
        have hb := hl.bounds List.mem_cons_self
        have hlt : stop c < hi := by omega
        simp [hl.1, hlt]

end Tiles

/-- Nonempty parts of a tiled list tile the same interval. -/
theorem tiles_flatten {lo hi : Nat} {parts : List (List α)} {partStart partStop : List α → Nat}
    (hstart : ∀ p ∈ parts, ∃ hne : p ≠ [], partStart p = start (p.head hne) ∧
      partStop p = stop (p.getLast hne))
    (h : Tiles start stop lo hi parts.flatten) : Tiles partStart partStop lo hi parts := by
  induction parts generalizing lo with
  | nil => exact h
  | cons p parts ih =>
    obtain ⟨hne, hfirst, hlast⟩ := hstart p List.mem_cons_self
    rw [List.flatten_cons, tiles_append] at h
    obtain ⟨mid, hp, hrest⟩ := h
    have hstop := hp.stop_getLast hne
    refine ⟨?_, ?_, ?_⟩
    · exact hfirst.trans (hp.start_head hne)
    · rw [hfirst, hlast, hstop]
      have hb := hp.bounds (List.head_mem hne)
      exact Nat.lt_of_lt_of_le hb.2.1 hb.2.2
    · rw [hlast, hstop]
      exact ih (fun q hq => hstart q (List.mem_cons_of_mem _ hq)) hrest

/-- The elements of a part lie between its first start and its last stop. -/
theorem tiles_part {lo hi : Nat} {parts : List (List α)} {p : List α} {a : α}
    (h : Tiles start stop lo hi parts.flatten) (hp : p ∈ parts) (ha : a ∈ p) (hne : p ≠ []) :
    start (p.head hne) ≤ start a ∧ stop a ≤ stop (p.getLast hne) := by
  obtain ⟨before, after, rfl⟩ := List.mem_iff_append.mp hp
  rw [List.flatten_append, List.flatten_cons, tiles_append] at h
  obtain ⟨mid, -, h⟩ := h
  obtain ⟨stopPart, hpart, -⟩ := tiles_append.mp h
  obtain ⟨hlo, -, hhi⟩ := hpart.bounds ha
  rw [hpart.start_head hne, hpart.stop_getLast hne]
  exact ⟨hlo, hhi⟩

/-- A part is read back by the key that its elements share. -/
theorem filter_flatten {κ : Type} [DecidableEq κ] {parts : List (List α)} {key : List α → κ}
    {f : α → κ} (hf : ∀ p ∈ parts, ∀ a ∈ p, f a = key p) (hnodup : (parts.map key).Nodup)
    {p : List α} (hp : p ∈ parts) : (parts.flatten.filter fun a => f a = key p) = p := by
  induction parts with
  | nil => cases hp
  | cons q parts ih =>
    obtain ⟨hq, hrest⟩ := List.forall_mem_cons.mp hf
    obtain ⟨hnew, hnodup⟩ := List.nodup_cons.mp hnodup
    rw [List.flatten_cons, List.filter_append]
    rcases List.mem_cons.mp hp with rfl | hp
    · have hlater : (parts.flatten.filter fun a => f a = key p) = [] := by
        rw [List.filter_eq_nil_iff]
        intro a ha
        obtain ⟨r, hr, har⟩ := List.mem_flatten.mp ha
        rw [decide_eq_true_eq, hrest r hr a har]
        exact fun heq => hnew (heq ▸ List.mem_map_of_mem hr)
      rw [hlater, List.append_nil, List.filter_eq_self]
      exact fun a ha => decide_eq_true (hq a ha)
    · have hother : (q.filter fun a => f a = key p) = [] := by
        rw [List.filter_eq_nil_iff]
        intro a ha
        rw [decide_eq_true_eq, hq a ha]
        exact fun heq => hnew (heq ▸ List.mem_map_of_mem hp)
      rw [hother, List.nil_append, ih hrest hnodup hp]

-- ---------------------------------------------------------------------------
-- Cutting
-- ---------------------------------------------------------------------------

/-- The parts of `current ++ l`, where a marked element of `l` starts a new part. -/
def cut (mark : α → Bool) : List α → List α → List (List α)
  | current, [] => [current]
  | current, a :: l =>
    if mark a then current :: cut mark [a] l else cut mark (current ++ [a]) l

variable (mark : α → Bool)

theorem cut_flatten (current l : List α) : (cut mark current l).flatten = current ++ l := by
  induction l generalizing current with
  | nil => simp [cut]
  | cons a l ih =>
    simp only [cut]
    split
    · rw [List.flatten_cons, ih]
      rfl
    · rw [ih, List.append_assoc]
      rfl

theorem cut_ne_nil {current : List α} (l : List α) (hne : current ≠ []) :
    ∀ p ∈ cut mark current l, p ≠ [] := by
  induction l generalizing current with
  | nil =>
    simp only [cut, List.mem_singleton]
    rintro p rfl
    exact hne
  | cons a l ih =>
    simp only [cut]
    split
    · intro p hp
      rcases List.mem_cons.mp hp with rfl | hp
      · exact hne
      · exact ih (List.cons_ne_nil _ _) p hp
    · exact ih (by simp)

/-- Past its head a part holds no marked element. -/
theorem cut_tail {current : List α} (l : List α) (hcurrent : ∀ x ∈ current.tail, mark x = false)
    (hne : current ≠ []) : ∀ p ∈ cut mark current l, ∀ x ∈ p.tail, mark x = false := by
  induction l generalizing current with
  | nil =>
    simp only [cut, List.mem_singleton]
    rintro p rfl
    exact hcurrent
  | cons a l ih =>
    simp only [cut]
    split
    · intro p hp
      rcases List.mem_cons.mp hp with rfl | hp
      · exact hcurrent
      · exact ih (by simp) (List.cons_ne_nil _ _) p hp
    · next hmark =>
      refine ih (fun x hx => ?_) (by simp)
      rw [List.tail_append_of_ne_nil hne] at hx
      rcases List.mem_append.mp hx with hx | hx
      · exact hcurrent x hx
      · rw [List.mem_singleton.mp hx]
        exact Bool.eq_false_iff.mpr hmark

/-- Every part but the first starts at a marked element. -/
theorem cut_head (current l : List α) :
    ∀ p ∈ (cut mark current l).tail, ∃ a, p.head? = some a ∧ mark a = true := by
  -- a part of the cut of `[a]` starts with `a`, or is not the first one
  have hfirst : ∀ (l current : List α), current ≠ [] →
      ∃ q rest, cut mark current l = q :: rest ∧ q.head? = current.head? := by
    intro l
    induction l with
    | nil => exact fun current _ => ⟨current, [], rfl, rfl⟩
    | cons a l ih =>
      intro current hne
      simp only [cut]
      split
      · exact ⟨current, _, rfl, rfl⟩
      · obtain ⟨q, rest, hcut, hhead⟩ := ih (current ++ [a]) (by simp)
        refine ⟨q, rest, hcut, hhead.trans ?_⟩
        cases current with
        | nil => exact absurd rfl hne
        | cons b current => rfl
  induction l generalizing current with
  | nil => simp [cut]
  | cons a l ih =>
    simp only [cut]
    split
    · next hmark =>
      intro p hp
      obtain ⟨q, rest, hcut, hhead⟩ := hfirst l [a] (List.cons_ne_nil _ _)
      have ih := ih [a]
      rw [hcut] at ih
      rw [List.tail_cons, hcut] at hp
      rcases List.mem_cons.mp hp with rfl | hp
      · exact ⟨a, hhead, hmark⟩
      · exact ih p hp
    · exact ih _

end Segments
