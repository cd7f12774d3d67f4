-- SUMMARY: Depth-first search that scans one successor at a time: its tree, its back edges, and what is left without them.
import Mathlib.Algebra.GroupWithZero.Nat
import Mathlib.Data.List.Chain
import Mathlib.Data.List.Count
import Mathlib.Data.List.Nodup
import Mathlib.Data.Set.Insert
import Mathlib.Logic.Relation

/-!
# Depth-first trees

A frame of the stack is a node with the index of its next successor. An edge to a
node that is on the stack is a back edge; an edge to a new node is a tree edge.
-/

namespace DfsTree

variable {α : Type}

structure State (α : Type) where
  stack : List (α × Nat)
  visited : Set α
  inStack : Set α
  backEdges : List (α × α)
  /-- Pairs of a node and the node that was entered from it. -/
  tree : List (α × α)
  /-- The nodes that were left, in order. -/
  postOrder : List α

def init (entry : α) : State α := ⟨[(entry, 0)], {entry}, {entry}, [], [], []⟩

variable (succs : α → List α)

/-- `v` is a successor of `u`. -/
def Edge (u v : α) : Prop := v ∈ succs u

abbrev Reaches : α → α → Prop := Relation.ReflTransGen (Edge succs)

/-- Ancestors in the tree, the node itself included. -/
abbrev Ancestor (tree : List (α × α)) : α → α → Prop :=
  Relation.ReflTransGen fun u v => (u, v) ∈ tree

inductive Step : State α → State α → Prop
  | back {u v : α} {k : Nat} {stack : List (α × Nat)} {visited inStack : Set α}
      {back tree : List (α × α)} {post : List α} (hv : (succs u)[k]? = some v)
      (hon : v ∈ inStack) :
      Step ⟨(u, k) :: stack, visited, inStack, back, tree, post⟩
        ⟨(u, k + 1) :: stack, visited, inStack, back ++ [(u, v)], tree, post⟩
  | skip {u v : α} {k : Nat} {stack : List (α × Nat)} {visited inStack : Set α}
      {back tree : List (α × α)} {post : List α} (hv : (succs u)[k]? = some v)
      (hoff : v ∉ inStack) (hold : v ∈ visited) :
      Step ⟨(u, k) :: stack, visited, inStack, back, tree, post⟩
        ⟨(u, k + 1) :: stack, visited, inStack, back, tree, post⟩
  | enter {u v : α} {k : Nat} {stack : List (α × Nat)} {visited inStack : Set α}
      {back tree : List (α × α)} {post : List α} (hv : (succs u)[k]? = some v)
      (hnew : v ∉ visited) :
      Step ⟨(u, k) :: stack, visited, inStack, back, tree, post⟩
        ⟨(v, 0) :: (u, k + 1) :: stack, insert v visited, insert v inStack, back,
          tree ++ [(u, v)], post⟩
  | leave {u : α} {k : Nat} {stack : List (α × Nat)} {visited inStack : Set α}
      {back tree : List (α × α)} {post : List α} (hend : (succs u).length ≤ k) :
      Step ⟨(u, k) :: stack, visited, inStack, back, tree, post⟩
        ⟨stack, visited, inStack \ {u}, back, tree, post ++ [u]⟩

abbrev Run : State α → State α → Prop := Relation.ReflTransGen (Step succs)

-- ---------------------------------------------------------------------------
-- The invariant
-- ---------------------------------------------------------------------------

/-- What a frame has scanned leads back, to a finished node, or to the node above. -/
def Scanned (back : List (α × α)) (post : List α) : Set α → List (α × Nat) → Prop
  | _, [] => True
  | above, (u, k) :: stack =>
    (∀ v ∈ (succs u).take k, (u, v) ∈ back ∨ v ∈ post ∨ v ∈ above) ∧
      Scanned back post {u} stack

structure Inv (entry : α) (s : State α) : Prop where
  nodup : (s.postOrder ++ s.stack.map Prod.fst).Nodup
  visited : ∀ x, x ∈ s.visited ↔ x ∈ s.postOrder ∨ x ∈ s.stack.map Prod.fst
  inStack : ∀ x, x ∈ s.inStack ↔ x ∈ s.stack.map Prod.fst
  started : entry ∈ s.visited
  /-- The stack is a path of the tree, the newest node first. -/
  path : (s.stack.map Prod.fst).IsChain fun v u => (u, v) ∈ s.tree
  treeEdge : ∀ u v, (u, v) ∈ s.tree → Edge succs u v
  spans : ∀ x ∈ s.visited, Ancestor s.tree entry x
  parents : (entry :: s.tree.map Prod.snd).Nodup
  children : ∀ u v, (u, v) ∈ s.tree → v ∈ s.visited
  scanned : Scanned succs s.backEdges s.postOrder ∅ s.stack
  order : ∀ before u after, s.postOrder = before ++ u :: after →
    ∀ v, Edge succs u v → (u, v) ∈ s.backEdges ∨ v ∈ before
  backEdge : ∀ u v, (u, v) ∈ s.backEdges →
    Edge succs u v ∧ Ancestor s.tree v u ∧ u ∈ s.visited ∧ v ∈ s.visited

variable {succs}

-- ---------------------------------------------------------------------------
-- Steps
-- ---------------------------------------------------------------------------

theorem Ancestor.mono {tree tree' : List (α × α)} {x y : α} (h : Ancestor tree x y)
    (hsub : tree ⊆ tree') : Ancestor tree' x y :=
  Relation.ReflTransGen.mono (fun _ _ hmem => hsub hmem) _ _ h

theorem Ancestor.reaches {tree : List (α × α)} {x y : α} (h : Ancestor tree x y)
    (hedge : ∀ u v, (u, v) ∈ tree → Edge succs u v) : Reaches succs x y :=
  Relation.ReflTransGen.mono (fun u v hmem => hedge u v hmem) _ _ h

/-- The top of a path descends from every node on it. -/
theorem ancestor_top {tree : List (α × α)} {u x : α} {l : List α}
    (hpath : (u :: l).IsChain fun v u => (u, v) ∈ tree) (hx : x ∈ u :: l) : Ancestor tree x u := by
  induction l generalizing u with
  | nil =>
    cases List.mem_singleton.mp hx
    exact .refl
  | cons w l ih =>
    rcases List.mem_cons.mp hx with rfl | hx
    · exact .refl
    · obtain ⟨hedge, hrest⟩ := List.isChain_cons_cons.mp hpath
      exact (ih hrest hx).tail hedge

theorem mem_take_succ {l : List α} {k : Nat} {v w : α} (hv : l[k]? = some v)
    (hw : w ∈ l.take (k + 1)) : w ∈ l.take k ∨ w = v := by
  rw [List.take_add_one, hv] at hw
  simpa using hw

theorem Scanned.mono {back back' : List (α × α)} {post post' : List α} {above above' : Set α}
    {stack : List (α × Nat)} (h : Scanned succs back post above stack) (hback : back ⊆ back')
    (hpost : ∀ v, v ∈ post → v ∈ post')
    (habove : ∀ v, v ∈ above → v ∈ post' ∨ v ∈ above') :
    Scanned succs back' post' above' stack := by
  induction stack generalizing above above' with
  | nil => trivial
  | cons frame stack ih =>
    refine ⟨fun v hv => ?_, ih h.2 fun v hv => Or.inr hv⟩
    rcases h.1 v hv with hmem | hmem | hmem
    · exact Or.inl (hback hmem)
    · exact Or.inr (Or.inl (hpost v hmem))
    · exact Or.inr (habove v hmem)

theorem Inv.init (entry : α) : Inv succs entry (init entry) where
  nodup := by simp [DfsTree.init]
  visited x := by simp [DfsTree.init]
  inStack x := by simp [DfsTree.init]
  started := rfl
  path := List.isChain_singleton entry
  treeEdge u v h := nomatch h
  spans x hx := by
    cases hx
    exact .refl
  parents := by simp [DfsTree.init]
  children u v h := nomatch h
  scanned := by simp [DfsTree.init, Scanned]
  order before u after h := by simp [DfsTree.init] at h
  backEdge u v h := nomatch h

section Steps

variable {entry u v : α} {k : Nat} {stack : List (α × Nat)} {visited inStack : Set α}
  {back tree : List (α × α)} {post : List α}

theorem Inv.scanBack (h : Inv succs entry ⟨(u, k) :: stack, visited, inStack, back, tree, post⟩)
    (hv : (succs u)[k]? = some v) (hon : v ∈ inStack) :
    Inv succs entry ⟨(u, k + 1) :: stack, visited, inStack, back ++ [(u, v)], tree, post⟩ where
  nodup := h.nodup
  visited := h.visited
  inStack := h.inStack
  started := h.started
  path := h.path
  treeEdge := h.treeEdge
  spans := h.spans
  parents := h.parents
  children := h.children
  scanned := by
    refine ⟨fun w hw => ?_, h.scanned.2.mono (List.subset_append_left _ _) (fun _ => id)
      fun _ => Or.inr⟩
    rcases mem_take_succ hv hw with hw | rfl
    · exact (h.scanned.1 w hw).imp_left (List.mem_append_left _)
    · exact Or.inl (by simp)
  order before w after hsplit x hx :=
    (h.order before w after hsplit x hx).imp_left (List.mem_append_left _)
  backEdge x y hxy := by
    rcases List.mem_append.mp hxy with hxy | hxy
    · exact h.backEdge x y hxy
    · cases List.mem_singleton.mp hxy
      have hstack := (h.inStack v).mp hon
      exact ⟨List.mem_of_getElem? hv, ancestor_top h.path hstack,
        (h.visited u).mpr (Or.inr List.mem_cons_self), (h.visited v).mpr (Or.inr hstack)⟩

theorem Inv.scanOld (h : Inv succs entry ⟨(u, k) :: stack, visited, inStack, back, tree, post⟩)
    (hv : (succs u)[k]? = some v) (hoff : v ∉ inStack) (hold : v ∈ visited) :
    Inv succs entry ⟨(u, k + 1) :: stack, visited, inStack, back, tree, post⟩ where
  nodup := h.nodup
  visited := h.visited
  inStack := h.inStack
  started := h.started
  path := h.path
  treeEdge := h.treeEdge
  spans := h.spans
  parents := h.parents
  children := h.children
  scanned := by
    refine ⟨fun w hw => ?_, h.scanned.2⟩
    rcases mem_take_succ hv hw with hw | rfl
    · exact h.scanned.1 w hw
    · have hpost := ((h.visited w).mp hold).resolve_right fun hstack =>
        hoff ((h.inStack w).mpr hstack)
      exact Or.inr (Or.inl hpost)
  order := h.order
  backEdge := h.backEdge

theorem Inv.enter (h : Inv succs entry ⟨(u, k) :: stack, visited, inStack, back, tree, post⟩)
    (hv : (succs u)[k]? = some v) (hnew : v ∉ visited) :
    Inv succs entry ⟨(v, 0) :: (u, k + 1) :: stack, insert v visited, insert v inStack, back,
      tree ++ [(u, v)], post⟩ where
  nodup := by
    have hfresh : v ∉ post ++ ((u, k) :: stack).map Prod.fst := fun hmem =>
      hnew ((h.visited v).mpr (List.mem_append.mp hmem))
    exact (List.perm_middle.nodup_iff).mpr (List.nodup_cons.mpr ⟨hfresh, h.nodup⟩)
  visited x := by
    have hx := h.visited x
    simp only [List.map_cons, List.mem_cons, Set.mem_insert_iff] at hx ⊢
    rw [hx]
    tauto
  inStack x := by
    have hx := h.inStack x
    simp only [List.map_cons, List.mem_cons, Set.mem_insert_iff] at hx ⊢
    rw [hx]
  started := Or.inr h.started
  path := by
    refine List.isChain_cons_cons.mpr ⟨by simp, ?_⟩
    exact h.path.imp fun _ _ hmem => List.mem_append_left _ hmem
  treeEdge x y hxy := by
    rcases List.mem_append.mp hxy with hxy | hxy
    · exact h.treeEdge x y hxy
    · cases List.mem_singleton.mp hxy
      exact List.mem_of_getElem? hv
  spans x hx := by
    have hsub : tree ⊆ tree ++ [(u, v)] := List.subset_append_left _ _
    rcases hx with rfl | hx
    · have hu := h.spans u ((h.visited u).mpr (Or.inr List.mem_cons_self))
      exact (hu.mono hsub).tail (by simp)
    · exact (h.spans x hx).mono hsub
  parents := by
    have hfresh : v ∉ entry :: tree.map Prod.snd := by
      rintro hmem
      rcases List.mem_cons.mp hmem with rfl | hmem
      · exact hnew h.started
      · obtain ⟨⟨x, y⟩, hxy, rfl⟩ := List.mem_map.mp hmem
        exact hnew (h.children x y hxy)
    rw [List.map_append, ← List.cons_append]
    exact List.nodup_append_comm.mp (List.nodup_cons.mpr ⟨hfresh, h.parents⟩)
  children x y hxy := by
    rcases List.mem_append.mp hxy with hxy | hxy
    · exact Or.inr (h.children x y hxy)
    · cases List.mem_singleton.mp hxy
      exact Or.inl rfl
  scanned := by
    refine ⟨fun w hw => (List.not_mem_nil hw).elim, fun w hw => ?_, h.scanned.2⟩
    rcases mem_take_succ hv hw with hw | rfl
    · exact (h.scanned.1 w hw).imp_right (Or.imp_right fun hmem => nomatch hmem)
    · exact Or.inr (Or.inr rfl)
  order := h.order
  backEdge x y hxy := by
    obtain ⟨hedge, hanc, hx, hy⟩ := h.backEdge x y hxy
    exact ⟨hedge, hanc.mono (List.subset_append_left _ _), Or.inr hx, Or.inr hy⟩

theorem Inv.leave (h : Inv succs entry ⟨(u, k) :: stack, visited, inStack, back, tree, post⟩)
    (hend : (succs u).length ≤ k) :
    Inv succs entry ⟨stack, visited, inStack \ {u}, back, tree, post ++ [u]⟩ where
  nodup := by simpa using h.nodup
  visited x := by simpa [or_assoc] using h.visited x
  inStack x := by
    have hx := h.inStack x
    have hnot : u ∉ stack.map Prod.fst :=
      (List.nodup_cons.mp (List.nodup_append.mp h.nodup).2.1).1
    simp only [List.map_cons, List.mem_cons] at hx
    simp only [Set.mem_sdiff, Set.mem_singleton_iff, hx]
    refine ⟨fun hmem => hmem.1.resolve_left hmem.2, fun hmem => ⟨Or.inr hmem, ?_⟩⟩
    rintro rfl
    exact hnot hmem
  started := h.started
  path := h.path.tail
  treeEdge := h.treeEdge
  spans := h.spans
  parents := h.parents
  children := h.children
  scanned := by
    refine h.scanned.2.mono (fun _ => id) (fun _ => List.mem_append_left _) fun w hw => Or.inl ?_
    cases hw
    simp
  order before w after hsplit x hx := by
    rcases List.eq_nil_or_concat after with rfl | ⟨after, last, rfl⟩
    · obtain ⟨rfl, hlast⟩ := List.append_inj' hsplit rfl
      cases hlast
      have hmem : x ∈ (succs u).take k := by rwa [List.take_of_length_le hend]
      exact (h.scanned.1 x hmem).imp_right fun hmem => hmem.resolve_right id
    · have hsplit' : post ++ [u] = (before ++ w :: after) ++ [last] := by simpa using hsplit
      exact h.order before w after (List.append_inj' hsplit' rfl).1 x hx
  backEdge := h.backEdge

end Steps

theorem Inv.step {entry : α} {s s' : State α} (h : Inv succs entry s) (hstep : Step succs s s') :
    Inv succs entry s' := by
  cases hstep with
  | back hv hon => exact h.scanBack hv hon
  | skip hv hoff hold => exact h.scanOld hv hoff hold
  | enter hv hnew => exact h.enter hv hnew
  | leave hend => exact h.leave hend

theorem Inv.run {entry : α} {s s' : State α} (h : Inv succs entry s) (hrun : Run succs s s') :
    Inv succs entry s' := by
  induction hrun with
  | refl => exact h
  | tail _ hstep ih => exact ih.step hstep

-- ---------------------------------------------------------------------------
-- Termination
-- ---------------------------------------------------------------------------

section Work

open Classical in
/-- The weight of the nodes that are not visited. -/
noncomputable def unvisited (weight : α → Nat) (visited : Set α) (nodes : List α) : Nat :=
  (nodes.map fun u => if u ∈ visited then 0 else weight u).sum

variable (succs) in
/-- How many steps may be left, when only `nodes` have successors. -/
noncomputable def work (nodes : List α) (s : State α) : Nat :=
  unvisited (fun u => 2 * (succs u).length) s.visited nodes +
    (s.stack.map fun frame => 2 * ((succs frame.1).length - frame.2) + 1).sum

theorem unvisited_cons (weight : α → Nat) (visited : Set α) (x : α) (nodes : List α) :
    unvisited weight visited (x :: nodes) =
      unvisited weight visited [x] + unvisited weight visited nodes := by
  simp [unvisited]

theorem unvisited_of_mem (weight : α → Nat) {visited : Set α} {x : α} (hx : x ∈ visited) :
    unvisited weight visited [x] = 0 := by
  simp [unvisited, hx]

theorem unvisited_of_notMem (weight : α → Nat) {visited : Set α} {x : α} (hx : x ∉ visited) :
    unvisited weight visited [x] = weight x := by
  simp [unvisited, hx]

theorem unvisited_insert_le (weight : α → Nat) (visited : Set α) (v : α) (nodes : List α) :
    unvisited weight (insert v visited) nodes ≤ unvisited weight visited nodes := by
  induction nodes with
  | nil => exact Nat.le_refl _
  | cons x nodes ih =>
    rw [unvisited_cons, unvisited_cons weight visited]
    by_cases hx : x ∈ insert v visited
    · rw [unvisited_of_mem weight hx]
      omega
    · rw [unvisited_of_notMem weight hx, unvisited_of_notMem weight fun hold => hx (Or.inr hold)]
      omega

theorem unvisited_insert_add {weight : α → Nat} {visited : Set α} {v : α} {nodes : List α}
    (hnew : v ∉ visited) (hv : v ∈ nodes ∨ weight v = 0) :
    unvisited weight (insert v visited) nodes + weight v ≤ unvisited weight visited nodes := by
  rcases hv with hv | hv
  · induction nodes with
    | nil => cases hv
    | cons x nodes ih =>
      rw [unvisited_cons, unvisited_cons weight visited]
      rcases List.mem_cons.mp hv with rfl | hv
      · have hrest := unvisited_insert_le weight visited v nodes
        rw [unvisited_of_mem weight (Set.mem_insert v visited), unvisited_of_notMem weight hnew]
        omega
      · have hx := unvisited_insert_le weight visited v [x]
        have hrest := ih hv
        omega
  · rw [hv]
    exact unvisited_insert_le weight visited v nodes

theorem Step.work_lt {nodes : List α} {s s' : State α} (hnodes : ∀ u, u ∈ nodes ∨ succs u = [])
    (hstep : Step succs s s') : work succs nodes s' < work succs nodes s := by
  cases hstep with
  | @back u v k stack visited inStack back tree post hv hon =>
    have hlt := (List.getElem?_eq_some_iff.mp hv).1
    simp only [work, List.map_cons, List.sum_cons]
    omega
  | @skip u v k stack visited inStack back tree post hv hoff hold =>
    have hlt := (List.getElem?_eq_some_iff.mp hv).1
    simp only [work, List.map_cons, List.sum_cons]
    omega
  | @enter u v k stack visited inStack back tree post hv hnew =>
    have hlt := (List.getElem?_eq_some_iff.mp hv).1
    have hsum := @unvisited_insert_add _ (fun u => 2 * (succs u).length) _ _ nodes hnew
      ((hnodes v).imp_right fun h => by simp [h])
    simp only [work, List.map_cons, List.sum_cons]
    omega
  | @leave u k stack visited inStack back tree post hend =>
    simp only [work, List.map_cons, List.sum_cons]
    omega

/-- A step uses up one round. -/
theorem Step.work_le {nodes : List α} {s s' : State α} {fuel : Nat}
    (hnodes : ∀ u, u ∈ nodes ∨ succs u = []) (hstep : Step succs s s')
    (hfuel : work succs nodes s ≤ fuel + 1) : work succs nodes s' ≤ fuel :=
  Nat.le_of_lt_succ ((hstep.work_lt hnodes).trans_le hfuel)

end Work

-- ---------------------------------------------------------------------------
-- Finished runs
-- ---------------------------------------------------------------------------

variable (succs) in
/-- The edges that are not returned. -/
def Forward (back : List (α × α)) (u v : α) : Prop := Edge succs u v ∧ (u, v) ∉ back

/-- The searched nodes are those that the entry reaches. -/
theorem Inv.mem_postOrder {entry x : α} {s : State α} (h : Inv succs entry s)
    (hstack : s.stack = []) : x ∈ s.postOrder ↔ Reaches succs entry x := by
  have hvisited : ∀ x, x ∈ s.visited ↔ x ∈ s.postOrder := fun x => by
    simpa [hstack] using h.visited x
  refine ⟨fun hx => (h.spans x ((hvisited x).mpr hx)).reaches h.treeEdge, fun hx => ?_⟩
  induction hx with
  | refl => exact (hvisited entry).mp h.started
  | tail _ hedge ih =>
    obtain ⟨before, after, hsplit⟩ := List.append_of_mem ih
    rcases h.order before _ after hsplit _ hedge with hback | hbefore
    · exact (hvisited _).mp (h.backEdge _ _ hback).2.2.2
    · rw [hsplit]
      exact List.mem_append_left _ hbefore

/-- A path either has only edges that are not returned, or passes a returned edge. -/
theorem forward_or_back {back : List (α × α)} {x y : α}
    (h : Relation.TransGen (Edge succs) x y) :
    Relation.TransGen (Forward succs back) x y ∨
      ∃ u v, (u, v) ∈ back ∧ Edge succs u v ∧ Reaches succs x u ∧ Reaches succs v y := by
  induction h with
  | @single y hedge =>
    by_cases hback : (x, y) ∈ back
    · exact Or.inr ⟨x, y, hback, hedge, .refl, .refl⟩
    · exact Or.inl (.single ⟨hedge, hback⟩)
  | @tail y z hpath hedge ih =>
    rcases ih with hforward | ⟨u, v, hmem, huv, hu, hv⟩
    · by_cases hback : (y, z) ∈ back
      · exact Or.inr ⟨y, z, hback, hedge, hpath.to_reflTransGen, .refl⟩
      · exact Or.inl (hforward.tail ⟨hedge, hback⟩)
    · exact Or.inr ⟨u, v, hmem, huv, hu, hv.tail hedge⟩

variable [DecidableEq α]

/-- An edge that is not returned goes to a node that was left before. -/
theorem Inv.idxOf_lt {entry u v : α} {s : State α} (h : Inv succs entry s)
    (hu : u ∈ s.postOrder) (hforward : Forward succs s.backEdges u v) :
    v ∈ s.postOrder ∧ s.postOrder.idxOf v < s.postOrder.idxOf u := by
  obtain ⟨before, after, hsplit⟩ := List.append_of_mem hu
  have hv : v ∈ before := (h.order before u after hsplit v hforward.1).resolve_left hforward.2
  have hnot : u ∉ before := fun hmem => by
    have hnodup := (List.nodup_append.mp h.nodup).1
    rw [hsplit] at hnodup
    exact (List.nodup_append.mp hnodup).2.2 u hmem u List.mem_cons_self rfl
  rw [hsplit, List.idxOf_append_of_mem hv, List.idxOf_append_of_notMem hnot,
    List.idxOf_cons_self, Nat.add_zero]
  exact ⟨List.mem_append_left _ hv, List.idxOf_lt_length_of_mem hv⟩

/-- Without the returned edges there is no cycle. -/
theorem Inv.acyclic {entry x : α} {s : State α} (h : Inv succs entry s) (hx : x ∈ s.postOrder) :
    ¬ Relation.TransGen (Forward succs s.backEdges) x x := by
  have hlt : ∀ y, Relation.TransGen (Forward succs s.backEdges) x y →
      y ∈ s.postOrder ∧ s.postOrder.idxOf y < s.postOrder.idxOf x := fun y hpath => by
    induction hpath with
    | single hedge => exact h.idxOf_lt hx hedge
    | tail _ hedge ih =>
      obtain ⟨hmem, hidx⟩ := h.idxOf_lt ih.1 hedge
      exact ⟨hmem, hidx.trans ih.2⟩
  exact fun hcycle => Nat.lt_irrefl _ (hlt x hcycle).2

-- ---------------------------------------------------------------------------
-- Occurrences
-- ---------------------------------------------------------------------------

variable (succs) in
/-- What is returned of a node was scanned there, occurrence by occurrence. -/
structure Counted (s : State α) : Prop where
  scanned : ∀ frame ∈ s.stack, ∀ v,
    s.backEdges.count (frame.1, v) ≤ ((succs frame.1).take frame.2).count v
  all : ∀ u v, s.backEdges.count (u, v) ≤ (succs u).count v

theorem Counted.init (entry : α) : Counted succs (init entry) where
  scanned := by simp [DfsTree.init]
  all := by simp [DfsTree.init]

theorem Counted.step {entry : α} {s s' : State α} (h : Counted succs s)
    (hinv : Inv succs entry s) (hstep : Step succs s s') : Counted succs s' := by
  cases hstep with
  | @back u v k stack visited inStack back tree post hv hon =>
    have hnot : u ∉ stack.map Prod.fst :=
      (List.nodup_cons.mp (List.nodup_append.mp hinv.nodup).2.1).1
    have htake : (succs u).take (k + 1) = (succs u).take k ++ [v] := by
      rw [List.take_add_one, hv, Option.toList_some]
    have htop : ∀ w, (back ++ [(u, v)]).count (u, w) ≤ ((succs u).take (k + 1)).count w := by
      intro w
      have hold := h.scanned (u, k) List.mem_cons_self w
      rw [htake, List.count_append, List.count_append]
      by_cases hw : v = w
      · subst hw
        simpa using hold
      · simpa [hw] using hold
    constructor
    · intro frame hframe w
      rcases List.mem_cons.mp hframe with rfl | hframe
      · exact htop w
      · have hne : u ≠ frame.1 := fun heq =>
          hnot (heq ▸ List.mem_map_of_mem hframe)
        have hold := h.scanned frame (List.mem_cons_of_mem _ hframe) w
        simpa [List.count_append, hne] using hold
    · intro x w
      by_cases hx : u = x
      · subst hx
        exact (htop w).trans (List.Sublist.count_le w (List.take_sublist _ _))
      · have hold := h.all x w
        simpa [List.count_append, hx] using hold
  | @skip u v k stack visited inStack back tree post hv hoff hold =>
    refine ⟨fun frame hframe w => ?_, h.all⟩
    rcases List.mem_cons.mp hframe with rfl | hframe
    · exact (h.scanned (u, k) List.mem_cons_self w).trans
        (List.Sublist.count_le w (List.take_sublist_take_left (Nat.le_succ k)))
    · exact h.scanned frame (List.mem_cons_of_mem _ hframe) w
  | @enter u v k stack visited inStack back tree post hv hnew =>
    refine ⟨fun frame hframe w => ?_, h.all⟩
    rcases List.mem_cons.mp hframe with rfl | hframe
    · have hzero : back.count (v, w) = 0 :=
        List.count_eq_zero.mpr fun hmem => hnew (hinv.backEdge v w hmem).2.2.1
      exact hzero.le.trans (Nat.zero_le _)
    · rcases List.mem_cons.mp hframe with rfl | hframe
      · exact (h.scanned (u, k) List.mem_cons_self w).trans
          (List.Sublist.count_le w (List.take_sublist_take_left (Nat.le_succ k)))
      · exact h.scanned frame (List.mem_cons_of_mem _ hframe) w
  | leave hend =>
    exact ⟨fun frame hframe => h.scanned frame (List.mem_cons_of_mem _ hframe), h.all⟩

theorem Counted.run {entry : α} {s s' : State α} (h : Counted succs s) (hinv : Inv succs entry s)
    (hrun : Run succs s s') : Counted succs s' := by
  induction hrun with
  | refl => exact h
  | tail hrun hstep ih => exact ih.step (hinv.run hrun) hstep

end DfsTree
