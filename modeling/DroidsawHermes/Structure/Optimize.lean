-- SUMMARY: The optimizer as one function, and exactly when its last rounds leave no dead code.
import DroidsawHermes.Decompile.PatternRewrite
import Mathlib.Logic.Function.Iterate
import Mathlib.Algebra.Order.BigOperators.Group.List
import DroidsawHermes.Structure.LiteralFolds
import DroidsawHermes.Structure.LiteralSplit

/-!
# Optimizer

A round of dead code elimination removes what nothing reads, and so uncovers the next
layer. `doomed n` are the variables that are unread after `n` rounds: the rounds reach a
fixed point when no layer lies deeper than they go.
-/

namespace Hermes.Structure

open Decompile

/-! ## Passes -/

def resolveBigint (getBigint : Nat → Option String) (op : SsaOp) : SsaOp :=
  if op.name = "LoadConstBigInt" ∨ op.name = "LoadConstBigIntLongIndex" then
    match op.operands[1]? with
    | some (SsaOperand.const idx) =>
      match (if 0 ≤ idx then getBigint (asU32 idx) else none) with
      | some val => { op with operands := op.operands.set 1 (.resolvedBigInt val) }
      | none => op
    | _ => op
  else op

def resolveBigints (getBigint : Nat → Option String) (s : SsaFunction) : SsaFunction :=
  s.mapOps (resolveBigint getBigint)

/-- Operations and phis. -/
def instrCount (s : SsaFunction) : Nat := (s.blocks.map fun b => b.ops.length + b.phis.length).sum

/-- At most `n` rounds, and none after a round that removed nothing. -/
def deadCodeRounds : Nat → SsaFunction → SsaFunction
  | 0, s => s
  | n + 1, s =>
    if instrCount (deadCodeElimination s) = instrCount s then deadCodeElimination s
    else deadCodeRounds n (deadCodeElimination s)

section

variable (t : BufferTables) (getFuncName : Nat → String) (getBigint : Nat → Option String)

/-- The passes before the last rounds. Those that only name variables leave the operations
as they are. -/
def beforeRounds (s : SsaFunction) : SsaFunction :=
  resolveBigints getBigint (rewriteObjectSpreadSugar (rewriteArraySpreadSugar (resolveBuffers t
    (nameClosureVars t.getStr getFuncName (deadCodeElimination (patternRewrite t.getStr
      (constantFolding (copyPropagation s))))))))

def optimize (s : SsaFunction) : SsaFunction :=
  deadCodeRounds 4 (beforeRounds t getFuncName getBigint s)

end

/-! ## Layers -/

/-- The operation goes when its variable is dead. -/
def diesWith (dead : VarId → Bool) (op : SsaOp) : Bool :=
  match op.dst with
  | some dst => isPure op.name && dead dst
  | none => false

/-- Nothing reads the variable after `n` rounds: what read it went in the rounds before. -/
def doomed (s : SsaFunction) : Nat → VarId → Bool
  | 0, _ => false
  | n + 1, v =>
    (s.ops.all fun op => !op.reads.contains v || diesWith (doomed s n) op) &&
      s.phis.all fun phi => !(phi.args.map Prod.snd).contains v || doomed s n phi.dst

/-- The function without what is dead. -/
def prune (dead : VarId → Bool) (s : SsaFunction) : SsaFunction :=
  ⟨s.blocks.map fun b =>
    { b with
      ops := b.ops.filter fun op => !diesWith dead op
      phis := b.phis.filter fun phi => !dead phi.dst }⟩

section

variable {s : SsaFunction} {dead dead' : VarId → Bool}

theorem mem_ops_prune {op : SsaOp} :
    op ∈ (prune dead s).ops ↔ op ∈ s.ops ∧ diesWith dead op = false := by
  simp only [SsaFunction.mem_ops, prune, List.mem_map]
  constructor
  · rintro ⟨b', ⟨b, hb, rfl⟩, hop⟩
    obtain ⟨hop, hlives⟩ := List.mem_filter.mp hop
    exact ⟨⟨b, hb, hop⟩, by simpa using hlives⟩
  · rintro ⟨⟨b, hb, hop⟩, hlives⟩
    exact ⟨_, ⟨b, hb, rfl⟩, List.mem_filter.mpr ⟨hop, by simp [hlives]⟩⟩

theorem mem_phis_prune {phi : Phi} :
    phi ∈ (prune dead s).phis ↔ phi ∈ s.phis ∧ dead phi.dst = false := by
  simp only [SsaFunction.mem_phis, prune, List.mem_map]
  constructor
  · rintro ⟨b', ⟨b, hb, rfl⟩, hphi⟩
    obtain ⟨hphi, hlives⟩ := List.mem_filter.mp hphi
    exact ⟨⟨b, hb, hphi⟩, by simpa using hlives⟩
  · rintro ⟨⟨b, hb, hphi⟩, hlives⟩
    exact ⟨_, ⟨b, hb, rfl⟩, List.mem_filter.mpr ⟨hphi, by simp [hlives]⟩⟩

theorem prune_eq_self_iff : prune dead s = s ↔
    (∀ op ∈ s.ops, diesWith dead op = false) ∧ ∀ phi ∈ s.phis, dead phi.dst = false := by
  constructor
  · intro h
    rw [← h]
    exact ⟨fun op hop => (mem_ops_prune.mp hop).2, fun phi hphi => (mem_phis_prune.mp hphi).2⟩
  · rintro ⟨hops, hphis⟩
    obtain ⟨blocks⟩ := s
    simp only [prune]
    congr 1
    conv_rhs => rw [← List.map_id blocks]
    refine List.map_congr_left fun b hb => ?_
    have hops' : ∀ op ∈ b.ops, (!diesWith dead op) = true := fun op hop => by
      rw [hops op (SsaFunction.mem_ops.mpr ⟨b, hb, hop⟩), Bool.not_false]
    have hphis' : ∀ phi ∈ b.phis, (!dead phi.dst) = true := fun phi hphi => by
      rw [hphis phi (SsaFunction.mem_phis.mpr ⟨b, hb, hphi⟩), Bool.not_false]
    rw [List.filter_eq_self.mpr hops', List.filter_eq_self.mpr hphis']
    rfl

theorem prune_prune (s : SsaFunction) (dead dead' : VarId → Bool) :
    prune dead' (prune dead s) = prune (fun v => dead v || dead' v) s := by
  have hop : ∀ op : SsaOp, diesWith (fun v => dead v || dead' v) op
      = (diesWith dead op || diesWith dead' op) := by
    intro op
    cases hdst : op.dst with
    | none => simp [diesWith, hdst]
    | some dst => simp [diesWith, hdst, Bool.and_or_distrib_left]
  simp [prune, List.filter_filter, hop, Bool.and_comm]

theorem deadCodeElimination_eq_prune (s : SsaFunction) :
    deadCodeElimination s = prune (fun v => decide (s.countUses v = 0)) s := by
  have hphi : ∀ phi : Phi, decide (s.countUses phi.dst > 0)
      = !decide (s.countUses phi.dst = 0) := by
    intro phi
    by_cases huse : s.countUses phi.dst = 0 <;> simp [huse, Nat.pos_of_ne_zero]
  simp only [deadCodeElimination, prune, hphi]
  congr 2
  funext b
  congr 2
  funext op
  cases hdst : op.dst with
  | none => simp [diesWith, hdst]
  | some dst =>
    by_cases huse : s.countUses dst = 0 <;>
      simp [diesWith, hdst, hasSideEffects, huse, Nat.pos_of_ne_zero]

/-- A variable without uses is read by no operation and no phi. -/
theorem countUses_eq_zero_iff {v : VarId} : s.countUses v = 0 ↔
    (∀ op ∈ s.ops, v ∉ op.reads) ∧ ∀ phi ∈ s.phis, v ∉ phi.args.map Prod.snd := by
  rw [SsaFunction.countUses, List.count_eq_zero]
  simp only [List.mem_flatMap, SsaBlock.reads, List.mem_append, not_exists, not_and, not_or]
  constructor
  · intro h
    constructor
    · intro op hop hv
      obtain ⟨b, hb, hop⟩ := SsaFunction.mem_ops.mp hop
      exact (h b hb).2 op hop hv
    · intro phi hphi hv
      obtain ⟨b, hb, hphi⟩ := SsaFunction.mem_phis.mp hphi
      exact (h b hb).1 phi hphi hv
  · rintro ⟨hops, hphis⟩ b hb
    exact ⟨fun phi hphi => hphis phi (SsaFunction.mem_phis.mpr ⟨b, hb, hphi⟩),
      fun op hop => hops op (SsaFunction.mem_ops.mpr ⟨b, hb, hop⟩)⟩

/-- After `n` rounds a variable is unread exactly when it is doomed in the next. -/
theorem countUses_prune_doomed (n : Nat) (v : VarId) :
    (prune (doomed s n) s).countUses v = 0 ↔ doomed s (n + 1) v = true := by
  rw [countUses_eq_zero_iff, doomed, Bool.and_eq_true, List.all_eq_true, List.all_eq_true]
  refine and_congr (forall_congr' fun op => ?_) (forall_congr' fun phi => ?_)
  · rw [mem_ops_prune]
    cases hdies : diesWith (doomed s n) op <;> simp
  · rw [mem_phis_prune]
    cases hdead : doomed s n phi.dst <;> simp

theorem diesWith_mono (h : ∀ v, dead v = true → dead' v = true) {op : SsaOp}
    (hdies : diesWith dead op = true) : diesWith dead' op = true := by
  unfold diesWith at *
  split at hdies
  · rw [Bool.and_eq_true] at *
    exact ⟨hdies.1, h _ hdies.2⟩
  · cases hdies

theorem doomed_succ (n : Nat) {v : VarId} (h : doomed s n v = true) :
    doomed s (n + 1) v = true := by
  induction n generalizing v with
  | zero => cases h
  | succ n ih =>
    rw [doomed, Bool.and_eq_true, List.all_eq_true, List.all_eq_true] at *
    constructor
    · intro op hop
      have hread := h.1 op hop
      rw [Bool.or_eq_true] at *
      exact hread.imp_right (diesWith_mono fun _ => ih)
    · intro phi hphi
      have hread := h.2 phi hphi
      rw [Bool.or_eq_true] at *
      exact hread.imp_right ih

theorem deadCodeElimination_prune_doomed (s : SsaFunction) (n : Nat) :
    deadCodeElimination (prune (doomed s n) s) = prune (doomed s (n + 1)) s := by
  rw [deadCodeElimination_eq_prune, prune_prune]
  congr 1
  funext v
  rw [Bool.eq_iff_iff, Bool.or_eq_true, decide_eq_true_iff, countUses_prune_doomed]
  exact or_iff_right_of_imp (doomed_succ n)

/-- What `n` rounds leave. -/
theorem iterate_deadCodeElimination (s : SsaFunction) (n : Nat) :
    deadCodeElimination^[n] s = prune (doomed s n) s := by
  induction n with
  | zero =>
    refine (prune_eq_self_iff.mpr ⟨fun op _ => ?_, fun _ _ => rfl⟩).symm
    unfold diesWith
    split <;> simp [doomed]
  | succ n ih => rw [Function.iterate_succ_apply', ih, deadCodeElimination_prune_doomed]

end

/-! ## Rounds -/

theorem instrCount_prune_le (dead : VarId → Bool) (s : SsaFunction) :
    instrCount (prune dead s) ≤ instrCount s := by
  simp only [instrCount, prune, List.map_map]
  refine List.sum_le_sum fun b _ => ?_
  exact Nat.add_le_add (List.length_filter_le _ _) (List.length_filter_le _ _)

/-- A round that removes nothing changes nothing. -/
theorem prune_eq_self {dead : VarId → Bool} {s : SsaFunction}
    (h : instrCount (prune dead s) = instrCount s) : prune dead s = s := by
  obtain ⟨blocks⟩ := s
  simp only [instrCount, prune, List.map_map] at h ⊢
  congr 1
  induction blocks with
  | nil => rfl
  | cons b blocks ih =>
    have hle := instrCount_prune_le dead ⟨blocks⟩
    simp only [instrCount, prune, List.map_map] at hle
    have hops := List.length_filter_le (fun op => !diesWith dead op) b.ops
    have hphis := List.length_filter_le (fun phi : Phi => !dead phi.dst) b.phis
    simp only [List.map_cons, List.sum_cons, Function.comp_apply] at h
    have hrest := ih (by omega)
    rw [List.map_cons, hrest]
    congr 1
    have hops' := List.filter_eq_self.mpr (List.length_filter_eq_length_iff.mp
      (show (b.ops.filter fun op => !diesWith dead op).length = b.ops.length by omega))
    have hphis' := List.filter_eq_self.mpr (List.length_filter_eq_length_iff.mp
      (show (b.phis.filter fun phi => !dead phi.dst).length = b.phis.length by omega))
    rw [hops', hphis']

theorem deadCodeRounds_eq (n : Nat) (s : SsaFunction) :
    deadCodeRounds n s = deadCodeElimination^[n] s := by
  induction n generalizing s with
  | zero => rfl
  | succ n ih =>
    rw [deadCodeRounds, Function.iterate_succ_apply]
    split
    · next hsize =>
      have hfixed : deadCodeElimination s = s := by
        rw [deadCodeElimination_eq_prune] at hsize ⊢
        exact prune_eq_self hsize
      rw [hfixed, Function.iterate_fixed hfixed]
    · exact ih _

/-! ## The fixed point -/

/-- Nothing is left for another round. -/
structure AtFixedPoint (s : SsaFunction) : Prop where
  ops : ∀ op ∈ s.ops, ∀ dst, op.dst = some dst → isPure op.name = true → 0 < s.countUses dst
  phis : ∀ phi ∈ s.phis, 0 < s.countUses phi.dst
  unchanged : deadCodeElimination s = s

/-- What dies in any layer dies within the first `n`: no chain of operations that die one
after another is longer. -/
structure DiesWithin (s : SsaFunction) (n : Nat) : Prop where
  ops : ∀ m, ∀ op ∈ s.ops, diesWith (doomed s m) op = true → diesWith (doomed s n) op = true
  phis : ∀ m, ∀ phi ∈ s.phis, doomed s m phi.dst = true → doomed s n phi.dst = true

theorem atFixedPoint_of_diesWithin {s : SsaFunction} {n : Nat} (h : DiesWithin s n) :
    AtFixedPoint (prune (doomed s n) s) := by
  have hops : ∀ op ∈ (prune (doomed s n) s).ops, ∀ dst, op.dst = some dst →
      isPure op.name = true → 0 < (prune (doomed s n) s).countUses dst := by
    intro op hop dst hdst hpure
    obtain ⟨hop, hlives⟩ := mem_ops_prune.mp hop
    by_contra hunused
    have hdoomed := (countUses_prune_doomed n dst).mp (Nat.eq_zero_of_not_pos hunused)
    have hdies := h.ops (n + 1) op hop (by simp [diesWith, hdst, hpure, hdoomed])
    rw [hlives] at hdies
    cases hdies
  have hphis : ∀ phi ∈ (prune (doomed s n) s).phis,
      0 < (prune (doomed s n) s).countUses phi.dst := by
    intro phi hphi
    obtain ⟨hphi, hlives⟩ := mem_phis_prune.mp hphi
    by_contra hunused
    have hdoomed := (countUses_prune_doomed n phi.dst).mp (Nat.eq_zero_of_not_pos hunused)
    have hdies := h.phis (n + 1) phi hphi hdoomed
    rw [hlives] at hdies
    cases hdies
  refine ⟨hops, hphis, ?_⟩
  rw [deadCodeElimination_eq_prune, prune_eq_self_iff]
  constructor
  · intro op hop
    by_contra hdies
    rw [Bool.not_eq_false, diesWith] at hdies
    split at hdies
    · next dst hdst =>
      rw [Bool.and_eq_true, decide_eq_true_iff] at hdies
      have huse := hops op hop dst hdst hdies.1
      omega
    · cases hdies
  · intro phi hphi
    have huse := hphis phi hphi
    simpa using Nat.ne_of_gt huse

theorem diesWithin_of_atFixedPoint {s : SsaFunction} {n : Nat}
    (h : AtFixedPoint (prune (doomed s n) s)) : DiesWithin s n := by
  -- No later round changes anything, so later layers are empty.
  have hlater : ∀ k, prune (doomed s (n + k)) s = prune (doomed s n) s := by
    intro k
    rw [← iterate_deadCodeElimination, Nat.add_comm, Function.iterate_add_apply,
      iterate_deadCodeElimination s n, Function.iterate_fixed h.unchanged]
  have hmono : ∀ k v, doomed s k v = true → ∀ m, k ≤ m → doomed s m v = true := by
    intro k v hk m hm
    induction hm with
    | refl => exact hk
    | step _ ih => exact doomed_succ _ ih
  have hlate : ∀ m, ∃ k, ∀ v, doomed s m v = true → doomed s (n + k) v = true := fun m =>
    ⟨m, fun v hv => hmono m v hv _ (Nat.le_add_left m n)⟩
  constructor
  · intro m op hop hdies
    obtain ⟨k, hk⟩ := hlate m
    by_contra hlives
    have hmem := mem_ops_prune.mpr ⟨hop, Bool.eq_false_iff.mpr hlives⟩
    rw [← hlater k] at hmem
    have hdies' := (mem_ops_prune.mp hmem).2
    rw [diesWith_mono hk hdies] at hdies'
    cases hdies'
  · intro m phi hphi hdead
    obtain ⟨k, hk⟩ := hlate m
    by_contra hlives
    have hmem := mem_phis_prune.mpr ⟨hphi, Bool.eq_false_iff.mpr hlives⟩
    rw [← hlater k] at hmem
    have hdead' := (mem_phis_prune.mp hmem).2
    rw [hk _ hdead] at hdead'
    cases hdead'

theorem optimize_eq (t : BufferTables) (getFuncName : Nat → String)
    (getBigint : Nat → Option String) (s : SsaFunction) :
    optimize t getFuncName getBigint s
      = prune (doomed (beforeRounds t getFuncName getBigint s) 4)
          (beforeRounds t getFuncName getBigint s) := by
  rw [optimize, deadCodeRounds_eq, iterate_deadCodeElimination]

/-- The four rounds end at a fixed point when no chain of dead operations is longer. -/
theorem optimize_atFixedPoint_iff (t : BufferTables) (getFuncName : Nat → String)
    (getBigint : Nat → Option String) (s : SsaFunction) :
    AtFixedPoint (optimize t getFuncName getBigint s) ↔
      DiesWithin (beforeRounds t getFuncName getBigint s) 4 := by
  rw [optimize_eq]
  exact ⟨diesWithin_of_atFixedPoint, atFixedPoint_of_diesWithin⟩

/-- A parameter that is negated over and over, and never read otherwise. -/
def negations (n : Nat) : SsaFunction :=
  ⟨[{
    id := 0
    phis := []
    ops := ⟨"LoadParam", some ⟨1, 0⟩, [.dstPlaceholder, .const 1], ⟨0, 0, "LoadParam", []⟩⟩ ::
      (List.range n).map fun k =>
        ⟨"Negate", some ⟨1, k + 1⟩, [.dstPlaceholder, .var ⟨1, k⟩], ⟨0, 0, "Negate", []⟩⟩
    successors := []
    predecessors := [] }]⟩

/-- Seven layers, of which five go. -/
theorem negations_not_atFixedPoint :
    ¬ AtFixedPoint (optimize (oneString "") (fun _ => "") (fun _ => none) (negations 6)) := by
  intro h
  have hsize := congrArg instrCount h.unchanged
  revert hsize
  decide

end Hermes.Structure
