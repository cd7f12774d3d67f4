-- SUMMARY: Phi elimination: the copies appended to a block, and exactly when running them one after the other implements the phis.
import DroidsawHermes.Decompile.Ssa
import DroidsawHermes.Lib.Moves

/-!
# Phi copies

`HermesStmtBackend::new` collects, for every predecessor, a copy per phi
argument; `emit_block_ops` appends them to the block's statements. They run one
after the other, without temporaries and before the branch.
-/

namespace Hermes.Decompile

open Moves

/-! ## The copies of a block -/

/-- `BTreeMap<BlockId, Vec<(dst, src)>>`, with the empty list for an absent key. -/
abbrev PhiCopies := BlockId → List (Move String)

/-- `entry(pred).or_default().push((dst, src))`. -/
def PhiCopies.push (copies : PhiCopies) (pred : BlockId) (m : Move String) : PhiCopies :=
  Function.update copies pred (copies pred ++ [m])

def Phi.pushCopies (phi : Phi) (copies : PhiCopies) : PhiCopies :=
  phi.args.foldl (fun copies arg => copies.push arg.1 ⟨phi.dst.display, arg.2.display⟩) copies

def phiCopies (ssa : SsaFunction) : PhiCopies :=
  ssa.blocks.foldl (fun copies block =>
    block.phis.foldl (fun copies phi => phi.pushCopies copies) copies) fun _ => []

/-- The statements that a block lowers to. -/
inductive Stmt where
  | assign (dst : String) (op : SsaOp) (blockId : Option BlockId)
  | op (op : SsaOp)
  | phiAssign (dst src : String)
  deriving DecidableEq, Repr

def emitBlockOps (block : SsaBlock) (copies : PhiCopies) : List Stmt :=
  (block.ops.filterMap fun op =>
    if op.original.isTerminator then none
    else
      match op.dst with
      | some dst => some (.assign dst.display op (some block.id))
      | none => some (.op op))
  ++ (copies block.id).map fun m => .phiAssign m.dst m.src

/-- The copy that a statement makes, if it is a `PhiAssign`. -/
def Stmt.phiMove? : Stmt → Option (Move String)
  | .phiAssign dst src => some ⟨dst, src⟩
  | .assign .. | .op _ => none

/-! ## The copies as a list of moves -/

/-- The moves that the phis of a list of blocks ask of a predecessor. -/
def phiMoves (blocks : List SsaBlock) (pred : BlockId) : List (Move VarId) :=
  blocks.flatMap fun block => block.phis.flatMap fun phi =>
    (phi.args.filter fun arg => arg.1 = pred).map fun arg => ⟨phi.dst, arg.2⟩

theorem mem_phiMoves {blocks : List SsaBlock} {pred : BlockId} {m : Move VarId} :
    m ∈ phiMoves blocks pred ↔
      ∃ block ∈ blocks, ∃ phi ∈ block.phis, phi.dst = m.dst ∧ (pred, m.src) ∈ phi.args := by
  simp only [phiMoves, List.mem_flatMap, List.mem_map, List.mem_filter, decide_eq_true_eq]
  constructor
  · rintro ⟨block, hblock, phi, hphi, ⟨arg, var⟩, ⟨harg, rfl⟩, rfl⟩
    exact ⟨block, hblock, phi, hphi, rfl, harg⟩
  · rintro ⟨block, hblock, phi, hphi, hdst, harg⟩
    exact ⟨block, hblock, phi, hphi, (pred, m.src), ⟨harg, rfl⟩, by rw [hdst]⟩

theorem Phi.pushCopies_apply (phi : Phi) (copies : PhiCopies) (pred : BlockId) :
    phi.pushCopies copies pred = copies pred ++
      ((phi.args.filter fun arg => arg.1 = pred).map fun arg =>
        Move.map VarId.display ⟨phi.dst, arg.2⟩) := by
  obtain ⟨dst, args⟩ := phi
  simp only [Phi.pushCopies]
  induction args generalizing copies with
  | nil => simp
  | cons arg args ih =>
    rw [List.foldl_cons, ih, PhiCopies.push]
    by_cases hpred : arg.1 = pred
    · subst hpred
      simp [Move.map]
    · rw [Function.update_of_ne (Ne.symm hpred)]
      simp [hpred]

/-- The copies of a block are the moves of its edges, in the order of the blocks
and their phis. -/
theorem phiCopies_eq (ssa : SsaFunction) (pred : BlockId) :
    phiCopies ssa pred = (phiMoves ssa.blocks pred).map (Move.map VarId.display) := by
  have hphis : ∀ (phis : List Phi) (copies : PhiCopies),
      phis.foldl (fun copies phi => phi.pushCopies copies) copies pred = copies pred ++
        (phis.flatMap fun phi => (phi.args.filter fun arg => arg.1 = pred).map fun arg =>
          (⟨phi.dst, arg.2⟩ : Move VarId)).map (Move.map VarId.display) := by
    intro phis
    induction phis with
    | nil => simp
    | cons phi phis ih =>
      intro copies
      rw [List.foldl_cons, ih, Phi.pushCopies_apply]
      simp [Function.comp_def]
  have hblocks : ∀ (blocks : List SsaBlock) (copies : PhiCopies),
      blocks.foldl (fun copies block =>
        block.phis.foldl (fun copies phi => phi.pushCopies copies) copies) copies pred =
          copies pred ++ (phiMoves blocks pred).map (Move.map VarId.display) := by
    intro blocks
    induction blocks with
    | nil => simp [phiMoves]
    | cons block blocks ih =>
      intro copies
      rw [List.foldl_cons, ih, hphis]
      simp [phiMoves]
  rw [phiCopies, hblocks]
  simp

/-- The `PhiAssign` statements of a block are its copies. -/
theorem emitBlockOps_phiMoves (block : SsaBlock) (copies : PhiCopies) :
    (emitBlockOps block copies).filterMap Stmt.phiMove? = copies block.id := by
  have hops : ∀ ops : List SsaOp, (ops.filterMap fun op =>
      if op.original.isTerminator then none
      else
        match op.dst with
        | some dst => some (Stmt.assign dst.display op (some block.id))
        | none => some (.op op)).filterMap Stmt.phiMove? = [] := by
    intro ops
    induction ops with
    | nil => rfl
    | cons op ops ih =>
      rw [List.filterMap_cons]
      split
      · exact ih
      · rename_i stmt hstmt
        rw [List.filterMap_cons, ih]
        split at hstmt
        · cases hstmt
        · cases hdst : op.dst <;> simp [hdst] at hstmt <;> subst hstmt <;> rfl
  rw [emitBlockOps, List.filterMap_append, hops, List.nil_append, List.filterMap_map]
  have hcopy : ∀ moves : List (Move String),
      moves.filterMap (Stmt.phiMove? ∘ fun m => .phiAssign m.dst m.src) = moves := by
    intro moves
    induction moves with
    | nil => rfl
    | cons m moves ih => rw [List.filterMap_cons]; simp [ih, Stmt.phiMove?]
  exact hcopy _

/-! ## Uses of an old value -/

/-- The variables that a block's terminator reads. -/
def SsaBlock.terminatorReads (block : SsaBlock) : List VarId :=
  match block.ops.getLast? with
  | some op => if op.original.isTerminator then op.reads else []
  | none => []

/-- Whether a list of operations reads a variable before it writes it. -/
def readsBeforeWrite (x : VarId) : List SsaOp → Bool
  | [] => false
  | op :: ops => x ∈ op.reads || (op.dst ≠ some x && readsBeforeWrite x ops)

def SsaBlock.defines (block : SsaBlock) (x : VarId) : Bool :=
  (block.phis.any fun phi => phi.dst = x) || block.ops.any fun op => op.dst = some x

/-- The phis of a block are entered from another one: from a predecessor, or, for a catch block,
from a block that it protects, which does not list it among its successors. -/
def SsaBlock.EnteredFrom (s p : SsaBlock) : Prop :=
  s.id ∈ p.successors ∨ ∃ phi ∈ s.phis, p.id ∈ phi.args.map Prod.fst

/-- The value that a variable has on entry to a block is read on some path from
there: by an operation or by a phi of a later edge. -/
inductive SsaFunction.UsedFrom (ssa : SsaFunction) (x : VarId) : BlockId → Prop where
  | read {b : SsaBlock} (hb : b ∈ ssa.blocks) (hphi : ∀ phi ∈ b.phis, phi.dst ≠ x)
      (hread : readsBeforeWrite x b.ops = true) : ssa.UsedFrom x b.id
  | phiArg {b s : SsaBlock} {phi : Phi} (hb : b ∈ ssa.blocks) (hkeep : b.defines x = false)
      (hs : s ∈ ssa.blocks) (hphi : phi ∈ s.phis) (harg : (b.id, x) ∈ phi.args) :
      ssa.UsedFrom x b.id
  | step {b s : SsaBlock} (hb : b ∈ ssa.blocks) (hkeep : b.defines x = false)
      (hs : s ∈ ssa.blocks) (hedge : s.EnteredFrom b) (hrest : ssa.UsedFrom x s.id) :
      ssa.UsedFrom x b.id

/-- A phi destination of a block that is entered from `p` whose old value is used when `p`
branches to another one. -/
def SsaFunction.UsedBeside (ssa : SsaFunction) (p : SsaBlock) (x : VarId) : Prop :=
  ∃ u ∈ ssa.blocks, u.EnteredFrom p ∧ (∃ phi ∈ u.phis, phi.dst = x) ∧
    ∃ t ∈ p.successors, t ≠ u.id ∧ ssa.UsedFrom x t

/-! ## Parallel copies -/

/-- The store after the copies that `emit_block_ops` appends to a block. -/
def runPhiAssigns {V : Type} (ssa : SsaFunction) (p : SsaBlock) (σ : String → V) : String → V :=
  Moves.run ((emitBlockOps p (phiCopies ssa)).filterMap Stmt.phiMove?) σ

/-- The copies of a block act as its phis do: on every edge at once, those to catch blocks
among them, before the branch, and without a trace on the edges that are not taken. -/
structure CopiesParallel (ssa : SsaFunction) (p : SsaBlock) {V : Type} (σ : String → V) : Prop where
  args : ∀ s ∈ ssa.blocks, ∀ phi ∈ s.phis, ∀ var, (p.id, var) ∈ phi.args →
    runPhiAssigns ssa p σ phi.dst.display = σ var.display
  condition : ∀ v ∈ p.terminatorReads, runPhiAssigns ssa p σ v.display = σ v.display
  beside : ∀ x, ssa.UsedBeside p x → runPhiAssigns ssa p σ x.display = σ x.display

/-- No copy reads what an earlier one has overwritten, and every copy to a
variable that the branch or an untaken edge still needs is a copy of itself. -/
structure CopiesOrdered (ssa : SsaFunction) (p : SsaBlock) : Prop where
  ordered : Ordered (phiMoves ssa.blocks p.id)
  condition : ∀ m ∈ phiMoves ssa.blocks p.id, m.dst ∈ p.terminatorReads → m.src = m.dst
  beside : ∀ m ∈ phiMoves ssa.blocks p.id, ssa.UsedBeside p m.dst → m.src = m.dst

theorem runPhiAssigns_eq {V : Type} (ssa : SsaFunction) (p : SsaBlock) (σ : String → V) :
    runPhiAssigns ssa p σ =
      Moves.run ((phiMoves ssa.blocks p.id).map (Move.map VarId.display)) σ := by
  rw [runPhiAssigns, emitBlockOps_phiMoves, phiCopies_eq]

section Parallel

variable {V : Type} [Nontrivial V] {ssa : SsaFunction} {p : SsaBlock}

/-- The argument part alone is the order of the copies. -/
theorem copies_args_iff :
    (∀ σ : String → V, ∀ s ∈ ssa.blocks, ∀ phi ∈ s.phis, ∀ var, (p.id, var) ∈ phi.args →
      runPhiAssigns ssa p σ phi.dst.display = σ var.display) ↔
      Ordered (phiMoves ssa.blocks p.id) := by
  rw [← ordered_map_iff VarId.display_injective, ← run_iff_ordered (V := V)]
  apply forall_congr'
  intro σ
  rw [runPhiAssigns_eq]
  constructor
  · intro h m hm
    obtain ⟨n, hn, rfl⟩ := List.mem_map.mp hm
    obtain ⟨s, hs, phi, hphi, hdst, harg⟩ := mem_phiMoves.mp hn
    have := h s hs phi hphi n.src harg
    rwa [hdst] at this
  · intro h s hs phi hphi var harg
    exact h (Move.map VarId.display ⟨phi.dst, var⟩) (List.mem_map_of_mem
      (mem_phiMoves.mpr ⟨s, hs, phi, hphi, rfl, harg⟩))

/-- A variable keeps its value exactly when every copy to it is a copy of itself. -/
theorem copies_keep_iff (hordered : Ordered (phiMoves ssa.blocks p.id)) {x : VarId} :
    (∀ σ : String → V, runPhiAssigns ssa p σ x.display = σ x.display) ↔
      ∀ m ∈ phiMoves ssa.blocks p.id, m.dst = x → m.src = m.dst := by
  have hmap := (ordered_map_iff VarId.display_injective).mpr hordered
  have hkeep := run_keeps_iff (V := V) hmap (x := x.display)
  simp only [runPhiAssigns_eq, hkeep, List.forall_mem_map, Move.map,
    VarId.display_injective.eq_iff]
  constructor
  · rintro h m hm rfl
    exact h m hm rfl
  · rintro h m hm rfl
    exact h m hm rfl

/-- The copies of a block implement the phis that are entered from it, on every store,
exactly when they are ordered. -/
theorem copiesParallel_iff : (∀ σ : String → V, CopiesParallel ssa p σ) ↔ CopiesOrdered ssa p := by
  constructor
  · intro h
    have hordered := (copies_args_iff (V := V)).mp fun σ => (h σ).args
    refine ⟨hordered, ?_, ?_⟩
    · intro m hm hread
      exact (copies_keep_iff hordered).mp (fun σ => (h σ).condition m.dst hread) m hm rfl
    · intro m hm hused
      exact (copies_keep_iff hordered).mp (fun σ => (h σ).beside m.dst hused) m hm rfl
  · intro h σ
    have hargs := copies_args_iff.mpr h.ordered σ
    refine ⟨hargs, ?_, ?_⟩
    · intro v hv
      refine (copies_keep_iff h.ordered).mpr (fun m hm hdst => h.condition m hm ?_) σ
      rw [hdst]
      exact hv
    · intro x hx
      refine (copies_keep_iff h.ordered).mpr (fun m hm hdst => h.beside m hm ?_) σ
      rw [hdst]
      exact hx

end Parallel

/-- A loop that swaps two variables in each round: `do { [a, b] = [b, a] } while (c)`. -/
def swapLoop : SsaFunction where
  blocks :=
    [ { id := 0
        phis := []
        ops :=
          [ ⟨"LoadParam", some ⟨0, 0⟩, [.dstPlaceholder, .const 1], ⟨0, 3, "LoadParam", [.reg 0, .uint 1]⟩⟩,
            ⟨"LoadParam", some ⟨1, 0⟩, [.dstPlaceholder, .const 2], ⟨3, 3, "LoadParam", [.reg 1, .uint 2]⟩⟩,
            ⟨"LoadParam", some ⟨2, 0⟩, [.dstPlaceholder, .const 3], ⟨6, 3, "LoadParam", [.reg 2, .uint 3]⟩⟩ ]
        successors := [1]
        predecessors := [] },
      { id := 1
        phis := [⟨⟨0, 1⟩, [(0, ⟨0, 0⟩), (1, ⟨1, 1⟩)]⟩, ⟨⟨1, 1⟩, [(0, ⟨1, 0⟩), (1, ⟨0, 1⟩)]⟩]
        ops := [⟨"JmpTrue", none, [.blockTarget 1, .var ⟨2, 0⟩], ⟨18, 3, "JmpTrue", [.addr (-9), .reg 2]⟩⟩]
        successors := [1, 2]
        predecessors := [0, 1] },
      { id := 2
        phis := []
        ops := [⟨"Ret", none, [.var ⟨0, 1⟩], ⟨21, 2, "Ret", [.reg 0]⟩⟩]
        successors := []
        predecessors := [1] } ]

/-- The body of the loop. -/
def swapBody : SsaBlock := swapLoop.blocks.getD 1 ⟨0, [], [], [], []⟩

/-- The second copy reads the variable that the first has overwritten. -/
theorem copiesParallel_swapLoop : swapBody ∈ swapLoop.blocks ∧
    ¬ ∀ σ : String → Bool, CopiesParallel swapLoop swapBody σ := by
  refine ⟨by decide, fun h => ?_⟩
  have hcopy := (h fun s => s = "r0_1").args swapBody (by decide)
    ⟨⟨1, 1⟩, [(0, ⟨1, 0⟩), (1, ⟨0, 1⟩)]⟩ (by decide) ⟨0, 1⟩ (by decide)
  exact absurd hcopy (by decide)

theorem copiesParallel_iff_swapLoop :
    (∀ σ : String → Bool, CopiesParallel swapLoop swapBody σ) ↔ CopiesOrdered swapLoop swapBody :=
  copiesParallel_iff

end Hermes.Decompile
