-- SUMMARY: Sequences of moves: when running them one after the other has the effect of running them at once.
import Mathlib.Data.List.Pairwise
import Mathlib.Logic.Function.Basic
import Mathlib.Logic.Nontrivial.Defs

/-!
# Sequences of moves

A move copies one place of a store to another. A list of moves run in order
reads stale sources when an earlier move has overwritten them. `Ordered` is the
exact condition under which it does not: the run then gives every destination
the value its source had at the start.
-/

namespace Moves

variable {α β V : Type}

/-- `dst := src`. -/
structure Move (α : Type) where
  dst : α
  src : α
  deriving DecidableEq, Repr

def Move.map (f : α → β) (m : Move α) : Move β := ⟨f m.dst, f m.src⟩

/-- Whether `m'` may come after `m`: it agrees with `m` on a common destination,
and does not read what `m` overwrites with another value. -/
def Compatible (m m' : Move α) : Prop :=
  (m'.dst = m.dst → m'.src = m.src) ∧ (m'.src = m.dst → m.src = m.dst)

/-- No move reads a place that an earlier move has overwritten. -/
def Ordered (moves : List (Move α)) : Prop := moves.Pairwise Compatible

instance [DecidableEq α] (m m' : Move α) : Decidable (Compatible m m') :=
  inferInstanceAs (Decidable (_ ∧ _))

instance [DecidableEq α] (moves : List (Move α)) : Decidable (Ordered moves) :=
  inferInstanceAs (Decidable (moves.Pairwise Compatible))

theorem ordered_map_iff {f : α → β} (hf : Function.Injective f) {moves : List (Move α)} :
    Ordered (moves.map (Move.map f)) ↔ Ordered moves := by
  simp only [Ordered, List.pairwise_map]
  have hcompat : ∀ m m' : Move α, Compatible (m.map f) (m'.map f) ↔ Compatible m m' := by
    intro m m'
    simp only [Compatible, Move.map, hf.eq_iff]
  simp only [hcompat]

variable [DecidableEq α]

def Move.exec (σ : α → V) (m : Move α) : α → V := Function.update σ m.dst (σ m.src)

/-- The moves, one after the other. -/
def run (moves : List (Move α)) (σ : α → V) : α → V := moves.foldl Move.exec σ

theorem run_nil (σ : α → V) : run [] σ = σ := rfl

theorem run_cons (m : Move α) (moves : List (Move α)) (σ : α → V) :
    run (m :: moves) σ = run moves (m.exec σ) := rfl

-- ---------------------------------------------------------------------------
-- Frame
-- ---------------------------------------------------------------------------

/-- A place that no move writes keeps its value. -/
theorem run_of_not_dst {moves : List (Move α)} {x : α} (h : ∀ m ∈ moves, m.dst ≠ x) :
    ∀ σ : α → V, run moves σ x = σ x := by
  induction moves with
  | nil =>
    intro σ
    rfl
  | cons m moves ih =>
    intro σ
    have hne : x ≠ m.dst := (h m List.mem_cons_self).symm
    rw [run_cons, ih (fun m' hm' => h m' (List.mem_cons_of_mem _ hm')), Move.exec,
      Function.update_of_ne hne]

/-- A place that no move reads matters to no other place, and not to itself once
a move writes it. -/
theorem run_update_of_not_src {moves : List (Move α)} {x : α} (hsrc : ∀ m ∈ moves, m.src ≠ x)
    {y : α} : ∀ (σ : α → V) (v : V), (y ≠ x ∨ ∃ m ∈ moves, m.dst = y) →
      run moves (Function.update σ x v) y = run moves σ y := by
  induction moves with
  | nil =>
    intro σ v hy
    rcases hy with hne | ⟨m, hm, -⟩
    · simp only [run_nil, Function.update_of_ne hne]
    · cases hm
  | cons m moves ih =>
    intro σ v hy
    have ih := ih fun m' hm' => hsrc m' (List.mem_cons_of_mem _ hm')
    have hread : Function.update σ x v m.src = σ m.src :=
      Function.update_of_ne (hsrc m List.mem_cons_self) _ _
    simp only [run_cons, Move.exec, hread]
    by_cases hdst : m.dst = x
    · rw [hdst, Function.update_idem]
    · rw [Function.update_comm (Ne.symm hdst)]
      apply ih
      rcases hy with hne | ⟨m', hm', rfl⟩
      · exact .inl hne
      · rcases List.mem_cons.mp hm' with rfl | hmem
        · exact .inl hdst
        · exact .inr ⟨m', hmem, rfl⟩

-- ---------------------------------------------------------------------------
-- Ordered moves act at once
-- ---------------------------------------------------------------------------

/-- Ordered moves give every destination its source's old value. -/
theorem run_of_ordered {moves : List (Move α)} (h : Ordered moves) :
    ∀ (σ : α → V), ∀ m ∈ moves, run moves σ m.dst = σ m.src := by
  induction moves with
  | nil => simp
  | cons m moves ih =>
    intro σ
    obtain ⟨hm, hrest⟩ := List.pairwise_cons.mp h
    have htail : ∀ m' ∈ moves, run (m :: moves) σ m'.dst = σ m'.src := by
      intro m' hm'
      rw [run_cons, ih hrest (m.exec σ) m' hm', Move.exec]
      by_cases hread : m'.src = m.dst
      · rw [hread, Function.update_self, (hm m' hm').2 hread]
      · rw [Function.update_of_ne hread]
    intro m' hm'
    rcases List.mem_cons.mp hm' with rfl | hmem
    · by_cases hagain : ∃ m'' ∈ moves, m''.dst = m'.dst
      · obtain ⟨m'', hm'', hdst⟩ := hagain
        rw [← hdst, htail m'' hm'', (hm m'' hm'').1 hdst]
      · have hnot : ∀ m'' ∈ moves, m''.dst ≠ m'.dst := fun m'' hm'' hdst => hagain ⟨m'', hm'', hdst⟩
        rw [run_cons, run_of_not_dst hnot, Move.exec, Function.update_self]
    · exact htail m' hmem

-- ---------------------------------------------------------------------------
-- Only ordered moves do
-- ---------------------------------------------------------------------------

variable [Nontrivial V]

/-- Moves that act at once agree on their common destinations. -/
theorem src_eq_of_run {moves : List (Move α)}
    (h : ∀ (σ : α → V), ∀ m ∈ moves, run moves σ m.dst = σ m.src) {m m' : Move α}
    (hm : m ∈ moves) (hm' : m' ∈ moves) (hdst : m'.dst = m.dst) : m'.src = m.src := by
  obtain ⟨a, b, hab⟩ := exists_pair_ne V
  -- the store that tells the source of `m` from every other place
  have hread := h (Function.update (fun _ => b) m.src a) m' hm'
  rw [hdst, h _ m hm, Function.update_self] at hread
  by_contra hne
  rw [Function.update_of_ne hne] at hread
  exact hab hread

/-- The first move destroys the old value of its destination, so no move reads it. -/
theorem src_ne_of_run {m : Move α} {moves : List (Move α)}
    (h : ∀ (σ : α → V), ∀ m' ∈ m :: moves, run (m :: moves) σ m'.dst = σ m'.src)
    (hne : m.src ≠ m.dst) : ∀ m' ∈ m :: moves, m'.src ≠ m.dst := by
  obtain ⟨a, b, hab⟩ := exists_pair_ne V
  intro m' hm' hsrc
  have hexec : ∀ v, m.exec (Function.update (fun _ => b) m.dst v) =
      Function.update (fun _ => b) m.dst b := by
    intro v
    rw [Move.exec, Function.update_of_ne hne, Function.update_idem]
  have hrun : ∀ v, run moves (Function.update (fun _ => b) m.dst b) m'.dst = v := by
    intro v
    have hread := h (Function.update (fun _ => b) m.dst v) m' hm'
    rwa [run_cons, hexec, hsrc, Function.update_self] at hread
  exact hab ((hrun a).symm.trans (hrun b))

/-- Moves that act at once on every store are ordered. -/
theorem ordered_of_run {moves : List (Move α)}
    (h : ∀ (σ : α → V), ∀ m ∈ moves, run moves σ m.dst = σ m.src) : Ordered moves := by
  induction moves with
  | nil => exact List.Pairwise.nil
  | cons m moves ih =>
    refine List.pairwise_cons.mpr ⟨fun m' hm' => ⟨?_, ?_⟩, ih ?_⟩
    · exact src_eq_of_run h List.mem_cons_self (List.mem_cons_of_mem _ hm')
    · intro hread
      by_contra hne
      exact src_ne_of_run h hne m' (List.mem_cons_of_mem _ hm') hread
    · intro σ m' hm'
      have hhead := h σ m' (List.mem_cons_of_mem _ hm')
      rw [run_cons, Move.exec] at hhead
      by_cases htriv : m.src = m.dst
      · rwa [htriv, Function.update_eq_self] at hhead
      · have hsrc : ∀ m'' ∈ moves, m''.src ≠ m.dst := fun m'' hm'' =>
          src_ne_of_run h htriv m'' (List.mem_cons_of_mem _ hm'')
        rwa [run_update_of_not_src hsrc _ _ (.inr ⟨m', hm', rfl⟩)] at hhead

/-- Running moves in order acts as running them at once exactly when they are ordered. -/
theorem run_iff_ordered {moves : List (Move α)} :
    (∀ (σ : α → V), ∀ m ∈ moves, run moves σ m.dst = σ m.src) ↔ Ordered moves :=
  ⟨ordered_of_run, run_of_ordered⟩

/-- Ordered moves keep a place exactly when every move to it is a move of itself. -/
theorem run_keeps_iff {moves : List (Move α)} (h : Ordered moves) {x : α} :
    (∀ σ : α → V, run moves σ x = σ x) ↔ ∀ m ∈ moves, m.dst = x → m.src = x := by
  constructor
  · rintro hkeep m hm rfl
    by_contra hne
    obtain ⟨a, b, hab⟩ := exists_pair_ne V
    have hread := run_of_ordered h (Function.update (fun _ => b) m.src a) m hm
    rw [hkeep, Function.update_self, Function.update_of_ne (Ne.symm hne)] at hread
    exact hab hread.symm
  · intro hself σ
    by_cases hex : ∃ m ∈ moves, m.dst = x
    · obtain ⟨m, hm, rfl⟩ := hex
      rw [run_of_ordered h σ m hm, hself m hm rfl]
    · exact run_of_not_dst (fun m hm hdst => hex ⟨m, hm, hdst⟩) σ

end Moves
