-- SUMMARY: Byte ranges given by start and size: disjointness, and families in which two ranges coincide or are disjoint.
import DroidsawHermes.Lib.Sorted
import Mathlib.Data.List.Pairwise

/-!
# Byte ranges

A span is the half-open range `[start, start + size)` of positions. An empty span
holds no position, wherever it starts.
-/

namespace Bytes

structure Span where
  start : Nat
  size : Nat
  deriving DecidableEq, Repr

namespace Span

variable {a b c : Span}

def stop (s : Span) : Nat := s.start + s.size

/-- The span of something that is not there. -/
def absent : Span := ⟨0, 0⟩

/-- A position inside the span. -/
def Holds (s : Span) (p : Nat) : Prop := s.start ≤ p ∧ p < s.stop

/-- No position lies in both. -/
def Disjoint (a b : Span) : Prop := ∀ p, ¬ (a.Holds p ∧ b.Holds p)

theorem Disjoint.symm (h : a.Disjoint b) : b.Disjoint a := fun p hp => h p ⟨hp.2, hp.1⟩

theorem disjoint_iff :
    a.Disjoint b ↔ a.size = 0 ∨ b.size = 0 ∨ a.stop ≤ b.start ∨ b.stop ≤ a.start := by
  simp only [Disjoint, Holds, stop]
  constructor
  · intro h
    by_contra hno
    simp only [not_or] at hno
    exact h (max a.start b.start) (by omega)
  · intro h p hp
    omega

/-- The later of two meeting spans starts inside the other. -/
theorem not_disjoint_iff :
    ¬ a.Disjoint b ↔ (a.size ≠ 0 ∧ b.size ≠ 0 ∧ b.start < a.stop ∧ a.start < b.stop) := by
  rw [disjoint_iff]
  omega

-- ---------------------------------------------------------------------------
-- Families
-- ---------------------------------------------------------------------------

/-- The left span is the right one, or ends before it: what a walk over adjacent
pairs of a family sorted by start can check. -/
def SameOrBefore (a b : Span) : Prop := a = b ∨ a.stop ≤ b.start

theorem SameOrBefore.trans (hab : a.SameOrBefore b) (hbc : b.SameOrBefore c) :
    a.SameOrBefore c := by
  rcases hab with rfl | hab
  · exact hbc
  · rcases hbc with rfl | hbc
    · exact .inr hab
    · right
      simp only [stop] at *
      omega

/-- Two spans of a family that passes the adjacent check coincide or are disjoint. -/
theorem same_or_disjoint_of_windows2 {α : Type} {span : α → Span} {l : List α}
    (h : ∀ p ∈ Sorted.windows2 l, (span p.1).SameOrBefore (span p.2)) {x y : α}
    (hx : x ∈ l) (hy : y ∈ l) : span x = span y ∨ (span x).Disjoint (span y) := by
  have hpair : l.Pairwise fun x y => (span x).SameOrBefore (span y) :=
    Sorted.pairwise_of_windows2 (fun _ _ _ _ _ _ => SameOrBefore.trans) h
  have hsymm : l.Pairwise fun x y => span x = span y ∨ (span x).Disjoint (span y) := by
    refine hpair.imp fun hxy => ?_
    rcases hxy with heq | hle
    · exact .inl heq
    · exact .inr (disjoint_iff.mpr (.inr (.inr (.inl hle))))
  have hswap : Std.Symm fun x y => span x = span y ∨ (span x).Disjoint (span y) := by
    constructor
    intro x y hxy
    rcases hxy with heq | hdis
    · exact .inl heq.symm
    · exact .inr hdis.symm
  exact hsymm.forall_of_forall (fun x _ => .inl rfl) hx hy

end Span

end Bytes
