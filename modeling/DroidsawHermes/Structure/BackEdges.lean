-- SUMMARY: Back edges of a function, and that no cycle is left without them.
import DroidsawHermes.Decompile.Ssa
import DroidsawHermes.Lib.DfsTree
import DroidsawHermes.Lib.OrdMap

/-!
# Back edges

`find_back_edges` of `decompile/structure.rs`: a depth-first search from the first
block of the order, whose stack holds a block and the index of its next successor.
-/

namespace Hermes.Structure

open Decompile DfsTree

/-! ## The search -/

/-- The blocks by their ids. Of two blocks with one id, the last one is found. -/
def blockMap (ssa : SsaFunction) : OrdMap BlockId SsaBlock :=
  ssa.blocks.foldl (fun m b => m.insert b.id b) .empty

/-- A successor without a block has no successors. -/
def succsOf (blocks : OrdMap BlockId SsaBlock) (bid : BlockId) : List BlockId :=
  match blocks.get? bid with
  | some block => block.successors
  | none => []

def backEdgesLoop (blocks : OrdMap BlockId SsaBlock) : Nat → List (BlockId × Nat) →
    OrdSet BlockId → OrdSet BlockId → List (BlockId × BlockId) → Option (List (BlockId × BlockId))
  | _, [], _, _, backEdges => some backEdges
  | 0, _ :: _, _, _, _ => none
  | fuel + 1, (bid, si) :: stack, visited, inStack, backEdges =>
    match (succsOf blocks bid)[si]? with
    | some succ =>
      if succ ∈ inStack.keys then
        backEdgesLoop blocks fuel ((bid, si + 1) :: stack) visited inStack
          (backEdges ++ [(bid, succ)])
      else if succ ∈ visited.keys then
        backEdgesLoop blocks fuel ((bid, si + 1) :: stack) visited inStack backEdges
      else
        backEdgesLoop blocks fuel ((succ, 0) :: (bid, si + 1) :: stack) (visited.insert succ)
          (inStack.insert succ) backEdges
    | none =>
      backEdgesLoop blocks fuel stack visited (inStack.filter fun x _ => x ≠ bid) backEdges

/-- Every successor is scanned once, and every entered block is left once. -/
def searchFuel (blocks : OrdMap BlockId SsaBlock) : Nat :=
  (blocks.values.map fun b => 2 * b.successors.length).sum + 1

/-- `none` when the fuel does not last. -/
def findBackEdges (ssa : SsaFunction) (blockOrder : List BlockId) :
    Option (List (BlockId × BlockId)) :=
  match blockOrder.head? with
  | none => some []
  | some entry =>
    backEdgesLoop (blockMap ssa) (searchFuel (blockMap ssa)) [(entry, 0)]
      (OrdSet.empty.insert entry) (OrdSet.empty.insert entry) []

def loopHeaders (backEdges : List (BlockId × BlockId)) : OrdSet BlockId :=
  backEdges.foldl (fun headers edge => headers.insert edge.2) .empty

/-! ## Steps of the search -/

/-- A state of the loop, with the tree and the finished blocks that it does not record. -/
def searchState (stack : List (BlockId × Nat)) (visited inStack : OrdSet BlockId)
    (backEdges tree : List (BlockId × BlockId)) (post : List BlockId) : DfsTree.State BlockId :=
  ⟨stack, {x | x ∈ visited.keys}, {x | x ∈ inStack.keys}, backEdges, tree, post⟩

theorem setOf_insert (s : OrdSet BlockId) (bid : BlockId) :
    {x | x ∈ (s.insert bid).keys} = insert bid {x | x ∈ s.keys} :=
  Set.ext fun _ => OrdSet.mem_insert

theorem setOf_remove (s : OrdSet BlockId) (bid : BlockId) :
    {x | x ∈ (s.filter fun x _ => x ≠ bid).keys} = {x | x ∈ s.keys} \ {bid} := by
  ext x
  simp [OrdMap.keys, OrdMap.filter]

section Steps

variable {blocks : OrdMap BlockId SsaBlock} {bid succ : BlockId} {si : Nat}
  {stack : List (BlockId × Nat)} {visited inStack : OrdSet BlockId}
  {back tree : List (BlockId × BlockId)} {post : List BlockId}

theorem step_back (hsucc : (succsOf blocks bid)[si]? = some succ) (hon : succ ∈ inStack.keys) :
    Step (succsOf blocks) (searchState ((bid, si) :: stack) visited inStack back tree post)
      (searchState ((bid, si + 1) :: stack) visited inStack (back ++ [(bid, succ)]) tree post) :=
  .back hsucc hon

theorem step_skip (hsucc : (succsOf blocks bid)[si]? = some succ) (hoff : succ ∉ inStack.keys)
    (hold : succ ∈ visited.keys) :
    Step (succsOf blocks) (searchState ((bid, si) :: stack) visited inStack back tree post)
      (searchState ((bid, si + 1) :: stack) visited inStack back tree post) :=
  .skip hsucc hoff hold

theorem step_enter (hsucc : (succsOf blocks bid)[si]? = some succ)
    (hnew : succ ∉ visited.keys) :
    Step (succsOf blocks) (searchState ((bid, si) :: stack) visited inStack back tree post)
      (searchState ((succ, 0) :: (bid, si + 1) :: stack) (visited.insert succ)
        (inStack.insert succ) back (tree ++ [(bid, succ)]) post) := by
  rw [searchState, searchState, setOf_insert, setOf_insert]
  exact .enter hsucc hnew

theorem step_leave (hend : (succsOf blocks bid)[si]? = none) :
    Step (succsOf blocks) (searchState ((bid, si) :: stack) visited inStack back tree post)
      (searchState stack visited (inStack.filter fun x _ => x ≠ bid) back tree
        (post ++ [bid])) := by
  rw [searchState, searchState, setOf_remove]
  exact .leave (List.getElem?_eq_none_iff.mp hend)

end Steps

/-- The loop does steps of the search until the stack is empty. -/
theorem backEdgesLoop_run {blocks : OrdMap BlockId SsaBlock} {fuel : Nat}
    {stack : List (BlockId × Nat)} {visited inStack : OrdSet BlockId}
    {back backEdges tree : List (BlockId × BlockId)} {post : List BlockId}
    (h : backEdgesLoop blocks fuel stack visited inStack back = some backEdges) :
    ∃ s, DfsTree.Run (succsOf blocks) (searchState stack visited inStack back tree post) s ∧
      s.stack = [] ∧ s.backEdges = backEdges := by
  induction fuel generalizing stack visited inStack back tree post with
  | zero =>
    cases stack with
    | nil =>
      cases h
      exact ⟨_, .refl, rfl, rfl⟩
    | cons frame stack => cases h
  | succ fuel ih =>
    match stack with
    | [] =>
      cases h
      exact ⟨_, .refl, rfl, rfl⟩
    | (bid, si) :: stack =>
      simp only [backEdgesLoop] at h
      split at h
      · next succ hsucc =>
        split at h
        · next hon =>
          obtain ⟨s, hrun, hdone⟩ := ih h
          exact ⟨s, .head (step_back hsucc hon) hrun, hdone⟩
        · next hoff =>
          split at h
          · next hold =>
            obtain ⟨s, hrun, hdone⟩ := ih h
            exact ⟨s, .head (step_skip hsucc hoff hold) hrun, hdone⟩
          · next hnew =>
            obtain ⟨s, hrun, hdone⟩ := ih h
            exact ⟨s, .head (step_enter hsucc hnew) hrun, hdone⟩
      · next hend =>
        obtain ⟨s, hrun, hdone⟩ := ih h
        exact ⟨s, .head (step_leave hend) hrun, hdone⟩

/-- The fuel is enough. -/
theorem backEdgesLoop_total {blocks : OrdMap BlockId SsaBlock} {fuel : Nat}
    {stack : List (BlockId × Nat)} {visited inStack : OrdSet BlockId}
    {back tree : List (BlockId × BlockId)} {post : List BlockId}
    (hfuel : work (succsOf blocks) blocks.keys
      (searchState stack visited inStack back tree post) ≤ fuel) :
    ∃ backEdges, backEdgesLoop blocks fuel stack visited inStack back = some backEdges := by
  have hnodes : ∀ u, u ∈ blocks.keys ∨ succsOf blocks u = [] := fun u => by
    by_cases hu : u ∈ blocks.keys
    · exact Or.inl hu
    · exact Or.inr (by rw [succsOf, OrdMap.get?_eq_none_iff.mpr hu])
  induction fuel generalizing stack visited inStack back tree post with
  | zero =>
    cases stack with
    | nil => exact ⟨_, rfl⟩
    | cons frame stack =>
      simp only [work, searchState, List.map_cons, List.sum_cons] at hfuel
      omega
  | succ fuel ih =>
    cases stack with
    | nil => exact ⟨_, rfl⟩
    | cons frame stack =>
      obtain ⟨bid, si⟩ := frame
      simp only [backEdgesLoop]
      split
      · next succ hsucc =>
        split
        · next hon => exact ih ((step_back hsucc hon).work_le hnodes hfuel)
        · next hoff =>
          split
          · next hold => exact ih ((step_skip hsucc hoff hold).work_le hnodes hfuel)
          · next hnew => exact ih ((step_enter hsucc hnew).work_le hnodes hfuel)
      · next hend => exact ih ((step_leave hend).work_le hnodes hfuel)

theorem searchState_start (entry : BlockId) :
    searchState [(entry, 0)] (OrdSet.empty.insert entry) (OrdSet.empty.insert entry) [] [] [] =
      DfsTree.init entry := by
  have hstart : {x | x ∈ (OrdSet.empty.insert entry).keys} = ({entry} : Set BlockId) := by
    rw [setOf_insert]
    ext x
    simp [OrdSet.empty, OrdMap.empty, OrdMap.keys]
  rw [searchState, hstart, DfsTree.init]

theorem work_start (blocks : OrdMap BlockId SsaBlock) (entry : BlockId) :
    work (succsOf blocks) blocks.keys (DfsTree.init entry) ≤ searchFuel blocks := by
  have hentry : entry ∈ blocks.keys ∨ 2 * (succsOf blocks entry).length = 0 := by
    by_cases h : entry ∈ blocks.keys
    · exact Or.inl h
    · exact Or.inr (by simp [succsOf, OrdMap.get?_eq_none_iff.mpr h])
  have hsum := @unvisited_insert_add _ (fun u => 2 * (succsOf blocks u).length) ∅ entry
    blocks.keys (Set.notMem_empty entry) hentry
  have hall : unvisited (fun u => 2 * (succsOf blocks u).length) ∅ blocks.keys =
      (blocks.values.map fun b => 2 * b.successors.length).sum := by
    simp only [unvisited, Set.mem_empty_iff_false, if_false, OrdMap.keys, OrdMap.values,
      List.map_map]
    refine congrArg List.sum (List.map_congr_left fun x hx => ?_)
    have hget : blocks.get? x.1 = some x.2 := OrdMap.get?_eq_some_iff.mpr hx
    simp [succsOf, hget]
  rw [hall] at hsum
  simp only [work, DfsTree.init, searchFuel, List.map_cons, List.map_nil, List.sum_cons,
    List.sum_nil, insert_empty_eq] at hsum ⊢
  omega

/-! ## What is returned -/

/-- The first block of the order reaches `x`. -/
def Reachable (ssa : SsaFunction) (blockOrder : List BlockId) (x : BlockId) : Prop :=
  ∃ entry, blockOrder.head? = some entry ∧ Reaches (succsOf (blockMap ssa)) entry x

/-- The block is on a cycle. -/
def OnCycle (ssa : SsaFunction) (x : BlockId) : Prop :=
  Relation.TransGen (Edge (succsOf (blockMap ssa))) x x

/-- The tree of a finished search from the entry, which returned these edges. -/
structure SearchTree (succs : BlockId → List BlockId) (entry : BlockId)
    (backEdges tree : List (BlockId × BlockId)) : Prop where
  finished : ∃ s, DfsTree.Run succs (DfsTree.init entry) s ∧ s.stack = [] ∧ s.backEdges = backEdges ∧
    s.tree = tree
  /-- Every block but the entry has one parent, and is one of its successors. -/
  parents : (entry :: tree.map Prod.snd).Nodup
  edges : ∀ u v, (u, v) ∈ tree → Edge succs u v
  spans : ∀ x, Reaches succs entry x ↔ Ancestor tree entry x

structure BackEdgesExact (ssa : SsaFunction) (blockOrder : List BlockId)
    (backEdges : List (BlockId × BlockId)) : Prop where
  /-- A returned edge leads to an ancestor of its source. -/
  ancestors : ∀ entry, blockOrder.head? = some entry → ∃ tree,
    SearchTree (succsOf (blockMap ssa)) entry backEdges tree ∧
      ∀ u v, (u, v) ∈ backEdges → Edge (succsOf (blockMap ssa)) u v ∧ Ancestor tree v u
  once : ∀ u v, backEdges.count (u, v) ≤ (succsOf (blockMap ssa) u).count v
  acyclic : ∀ x, Reachable ssa blockOrder x →
    ¬ Relation.TransGen (Forward (succsOf (blockMap ssa)) backEdges) x x
  cycles : ∀ x, Reachable ssa blockOrder x → OnCycle ssa x → ∃ u v, (u, v) ∈ backEdges ∧
    Edge (succsOf (blockMap ssa)) u v ∧ Reaches (succsOf (blockMap ssa)) x u ∧
    Reaches (succsOf (blockMap ssa)) v x
  headers : (loopHeaders backEdges).keys = [] ↔
    ∀ x, Reachable ssa blockOrder x → ¬ OnCycle ssa x

theorem mem_loopHeaders {backEdges : List (BlockId × BlockId)} {h : BlockId} :
    h ∈ (loopHeaders backEdges).keys ↔ ∃ u, (u, h) ∈ backEdges := by
  have hfold : loopHeaders backEdges = (backEdges.map Prod.snd).foldl OrdSet.insert .empty := by
    rw [List.foldl_map]
    rfl
  rw [hfold, OrdSet.mem_foldl_insert]
  simp [OrdSet.empty, OrdMap.empty, OrdMap.keys]

theorem loopHeaders_eq_nil {backEdges : List (BlockId × BlockId)} :
    (loopHeaders backEdges).keys = [] ↔ backEdges = [] := by
  refine ⟨fun h => List.eq_nil_iff_forall_not_mem.mpr fun edge hedge => ?_, ?_⟩
  · have hmem := mem_loopHeaders.mpr ⟨edge.1, hedge⟩
    rw [h] at hmem
    exact List.not_mem_nil hmem
  · rintro rfl
    rfl

/-- The search ends, and returns what closes the cycles. -/
theorem findBackEdges_exact (ssa : SsaFunction) (blockOrder : List BlockId) :
    ∃ backEdges, findBackEdges ssa blockOrder = some backEdges ∧
      BackEdgesExact ssa blockOrder backEdges := by
  cases hentry : blockOrder.head? with
  | none =>
    refine ⟨[], by rw [findBackEdges, hentry], ?_, ?_, ?_, ?_, ?_⟩
    · simp [hentry]
    · simp
    · rintro x ⟨entry, h, -⟩
      cases hentry.symm.trans h
    · rintro x ⟨entry, h, -⟩
      cases hentry.symm.trans h
    · refine iff_of_true rfl ?_
      rintro x ⟨entry, h, -⟩
      cases hentry.symm.trans h
  | some entry =>
    have hreach : ∀ x, Reachable ssa blockOrder x ↔ Reaches (succsOf (blockMap ssa)) entry x :=
      fun x => by simp [Reachable, hentry]
    have hfuel := work_start (blockMap ssa) entry
    rw [← searchState_start] at hfuel
    obtain ⟨backEdges, hloop⟩ := backEdgesLoop_total hfuel
    obtain ⟨s, hrun, hstack, rfl⟩ := @backEdgesLoop_run _ _ _ _ _ _ _ [] [] hloop
    rw [searchState_start] at hrun
    have hinv := (Inv.init entry).run hrun
    have hcount := (Counted.init entry).run (Inv.init entry) hrun
    have hmem : ∀ x, x ∈ s.postOrder ↔ Reachable ssa blockOrder x := fun x =>
      (hinv.mem_postOrder hstack).trans (hreach x).symm
    have hacyclic : ∀ x, Reachable ssa blockOrder x →
        ¬ Relation.TransGen (Forward (succsOf (blockMap ssa)) s.backEdges) x x := fun x hx =>
      hinv.acyclic ((hmem x).mpr hx)
    refine ⟨s.backEdges, by rw [findBackEdges, hentry]; exact hloop, ?_, hcount.all, hacyclic,
      fun x hx hcycle => (forward_or_back hcycle).resolve_left (hacyclic x hx), ?_⟩
    · intro entry' h
      cases hentry.symm.trans h
      refine ⟨s.tree, ⟨⟨s, hrun, hstack, rfl, rfl⟩, hinv.parents, hinv.treeEdge, fun x => ?_⟩,
        fun u v huv => ⟨(hinv.backEdge u v huv).1, (hinv.backEdge u v huv).2.1⟩⟩
      refine ⟨fun hx => hinv.spans x ?_, fun hx => hx.reaches hinv.treeEdge⟩
      exact (hinv.visited x).mpr (Or.inl ((hinv.mem_postOrder hstack).mpr hx))
    · rw [loopHeaders_eq_nil]
      constructor
      · intro hnil x hx hcycle
        rcases forward_or_back hcycle with hforward | ⟨u, v, huv, -⟩
        · exact hacyclic x hx hforward
        · rw [hnil] at huv
          cases huv
      · intro hcyclefree
        refine List.eq_nil_iff_forall_not_mem.mpr fun edge hedge => ?_
        obtain ⟨huv, hanc, hu, -⟩ := hinv.backEdge edge.1 edge.2 hedge
        have hu := (hreach edge.1).mpr ((hinv.spans edge.1 hu).reaches hinv.treeEdge)
        exact hcyclefree edge.1 hu (.head' huv (hanc.reaches hinv.treeEdge))

end Hermes.Structure
