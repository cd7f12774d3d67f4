-- SUMMARY: Depth-first search with an explicit stack: a finished run lists the reachable nodes in post-order.
import Mathlib.Data.List.Nodup
import Mathlib.Data.Set.Insert
import Mathlib.Logic.Relation

/-!
# Depth-first search

The stack holds nodes to enter (`false`) and nodes to leave (`true`), its top
first. Entering a node marks it as visited and pushes its unvisited successors
above it, so a node can be on the stack many times. Leaving it appends it to the
post-order. The edges are an arbitrary relation, cycles and loops included.
-/

namespace Dfs

variable {α : Type}

structure State (α : Type) where
  stack : List (α × Bool)
  visited : Set α
  postOrder : List α

variable (edge : α → α → Prop)

abbrev Reaches : α → α → Prop := Relation.ReflTransGen edge

inductive Step : State α → State α → Prop
  | leave (u : α) (stack : List (α × Bool)) (visited : Set α) (post : List α) :
      Step ⟨(u, true) :: stack, visited, post⟩ ⟨stack, visited, post ++ [u]⟩
  | skip {u : α} (stack : List (α × Bool)) {visited : Set α} (post : List α)
      (hold : u ∈ visited) :
      Step ⟨(u, false) :: stack, visited, post⟩ ⟨stack, visited, post⟩
  | enter {u : α} (stack : List (α × Bool)) {visited : Set α} (post : List α) {pushed : List α}
      (hnew : u ∉ visited)
      (hpushed : ∀ s, s ∈ pushed ↔ edge u s ∧ s ∉ insert u visited) :
      Step ⟨(u, false) :: stack, visited, post⟩
        ⟨pushed.map (·, false) ++ (u, true) :: stack, insert u visited, post⟩

abbrev Run : State α → State α → Prop := Relation.ReflTransGen (Step edge)

/-- A post-order of what `entry` reaches: a successor that a node does not come
after leads back to the node. -/
structure PostOrder (entry : α) (post : List α) : Prop where
  nodup : post.Nodup
  mem_iff : ∀ x, x ∈ post ↔ Reaches edge entry x
  order : ∀ before u after, post = before ++ u :: after →
    ∀ s, edge u s → s ∈ before ∨ Reaches edge s u

-- ---------------------------------------------------------------------------
-- The stack
-- ---------------------------------------------------------------------------

/-- The nodes that are entered and not left. -/
def openNodes (stack : List (α × Bool)) : List α := (stack.filter (·.2)).map Prod.fst

@[simp]
theorem openNodes_true (u : α) (stack : List (α × Bool)) :
    openNodes ((u, true) :: stack) = u :: openNodes stack :=
  rfl

@[simp]
theorem openNodes_false (u : α) (stack : List (α × Bool)) :
    openNodes ((u, false) :: stack) = openNodes stack :=
  rfl

@[simp]
theorem openNodes_push (pushed : List α) (stack : List (α × Bool)) :
    openNodes (pushed.map (·, false) ++ stack) = openNodes stack := by
  induction pushed with
  | nil => rfl
  | cons s pushed ih => exact ih

theorem mem_openNodes {u : α} {stack : List (α × Bool)} :
    u ∈ openNodes stack ↔ (u, true) ∈ stack := by
  simp [openNodes]

/-- The successors of an open node are visited, or wait above it. -/
def Covered (visited : Set α) : Set α → List (α × Bool) → Prop
  | _, [] => True
  | above, (u, false) :: stack => Covered visited (insert u above) stack
  | above, (u, true) :: stack =>
    (∀ s, edge u s → s ∈ visited ∨ s ∈ above) ∧ Covered visited above stack

variable {edge}

theorem Covered.mono {visited visited' above above' : Set α} {stack : List (α × Bool)}
    (h : Covered edge visited above stack)
    (hsub : ∀ s, s ∈ visited ∨ s ∈ above → s ∈ visited' ∨ s ∈ above') :
    Covered edge visited' above' stack := by
  induction stack generalizing above above' with
  | nil => trivial
  | cons x stack ih =>
    match x with
    | (u, true) => exact ⟨fun s hs => hsub s (h.1 s hs), ih h.2 hsub⟩
    | (u, false) =>
      refine @ih (insert u above) _ h fun s hs => ?_
      rcases hs with hs | rfl | hs
      · exact (hsub s (Or.inl hs)).imp_right (Or.inr ·)
      · exact Or.inr (Or.inl rfl)
      · exact (hsub s (Or.inr hs)).imp_right (Or.inr ·)

theorem Covered.push {visited above : Set α} {pushed : List α} {stack : List (α × Bool)}
    (h : Covered edge visited (above ∪ {s | s ∈ pushed}) stack) :
    Covered edge visited above (pushed.map (·, false) ++ stack) := by
  induction pushed generalizing above with
  | nil => simpa using h
  | cons s pushed ih =>
    refine @ih (insert s above) (h.mono fun t ht => ?_)
    simp only [Set.mem_union, Set.mem_ofPred_eq, List.mem_cons, Set.mem_insert_iff] at ht ⊢
    tauto

-- ---------------------------------------------------------------------------
-- The invariant
-- ---------------------------------------------------------------------------

variable (edge)

structure Inv (entry : α) (s : State α) : Prop where
  started : entry ∈ s.visited ∨ (entry, false) ∈ s.stack
  nodup : (s.postOrder ++ openNodes s.stack).Nodup
  visited : ∀ x, x ∈ s.visited ↔ x ∈ s.postOrder ∨ x ∈ openNodes s.stack
  reachable : ∀ x, x ∈ s.visited ∨ (∃ b, (x, b) ∈ s.stack) → Reaches edge entry x
  /-- An open node reaches everything above it. -/
  chain : s.stack.Pairwise fun x y => y.2 = true → Reaches edge y.1 x.1
  pending : Covered edge s.visited ∅ s.stack
  closed : ∀ u ∈ s.postOrder, ∀ t, edge u t → t ∈ s.visited
  order : ∀ before u after, s.postOrder = before ++ u :: after →
    ∀ t, edge u t → t ∈ before ∨ Reaches edge t u

variable {edge}

theorem Inv.init (entry : α) : Inv edge entry ⟨[(entry, false)], ∅, []⟩ where
  started := Or.inr List.mem_cons_self
  nodup := List.nodup_nil
  visited := by simp [openNodes]
  reachable := by
    rintro x (hx | ⟨b, hx⟩)
    · cases hx
    · cases List.mem_singleton.mp hx
      exact .refl
  chain := List.pairwise_singleton _ _
  pending := trivial
  closed := by simp
  order := by simp

theorem Inv.leave {entry u : α} {stack : List (α × Bool)} {visited : Set α} {post : List α}
    (h : Inv edge entry ⟨(u, true) :: stack, visited, post⟩) :
    Inv edge entry ⟨stack, visited, post ++ [u]⟩ where
  started := by simpa using h.started
  nodup := by simpa using h.nodup
  visited x := by simpa [or_assoc] using h.visited x
  reachable x hx := h.reachable x (hx.imp_right fun ⟨b, hb⟩ => ⟨b, List.mem_cons_of_mem _ hb⟩)
  chain := h.chain.of_cons
  pending := h.pending.2
  closed v hv t ht := by
    rcases List.mem_append.mp hv with hv | hv
    · exact h.closed v hv t ht
    · cases List.mem_singleton.mp hv
      exact (h.pending.1 t ht).resolve_right id
  order before v after hsplit t ht := by
    rcases List.eq_nil_or_concat after with rfl | ⟨after, last, rfl⟩
    · -- the node that is left: its successors are finished, or open around it
      obtain ⟨rfl, hlast⟩ := List.append_inj' hsplit rfl
      cases hlast
      rcases (h.visited t).mp ((h.pending.1 t ht).resolve_right id) with hpost | hopen
      · exact Or.inl hpost
      · rcases List.mem_cons.mp hopen with rfl | hopen
        · exact Or.inr .refl
        · have hmem := mem_openNodes.mp hopen
          exact Or.inr ((List.pairwise_cons.mp h.chain).1 _ hmem rfl)
    · have hsplit' : post ++ [u] = (before ++ v :: after) ++ [last] := by simpa using hsplit
      exact h.order before v after (List.append_inj' hsplit' rfl).1 t ht

theorem Inv.skip {entry u : α} {stack : List (α × Bool)} {visited : Set α} {post : List α}
    (h : Inv edge entry ⟨(u, false) :: stack, visited, post⟩) (hold : u ∈ visited) :
    Inv edge entry ⟨stack, visited, post⟩ where
  started := by
    rcases h.started with hvisited | hstack
    · exact Or.inl hvisited
    · rcases List.mem_cons.mp hstack with heq | hstack
      · cases heq
        exact Or.inl hold
      · exact Or.inr hstack
  nodup := h.nodup
  visited := h.visited
  reachable x hx := h.reachable x (hx.imp_right fun ⟨b, hb⟩ => ⟨b, List.mem_cons_of_mem _ hb⟩)
  chain := h.chain.of_cons
  pending := by
    have hpending : Covered edge visited (insert u ∅) stack := h.pending
    refine hpending.mono fun s hs => Or.inl ?_
    rcases hs with hs | rfl | hs
    · exact hs
    · exact hold
    · cases hs
  closed := h.closed
  order := h.order

theorem Inv.enter {entry u : α} {stack : List (α × Bool)} {visited : Set α} {post pushed : List α}
    (h : Inv edge entry ⟨(u, false) :: stack, visited, post⟩) (hnew : u ∉ visited)
    (hpushed : ∀ s, s ∈ pushed ↔ edge u s ∧ s ∉ insert u visited) :
    Inv edge entry
      ⟨pushed.map (·, false) ++ (u, true) :: stack, insert u visited, post⟩ where
  started := by
    rcases h.started with hvisited | hstack
    · exact Or.inl (Or.inr hvisited)
    · rcases List.mem_cons.mp hstack with heq | hstack
      · cases heq
        exact Or.inl (Or.inl rfl)
      · exact Or.inr (List.mem_append_right _ (List.mem_cons_of_mem _ hstack))
  nodup := by
    have hfresh : u ∉ post ++ openNodes stack := fun hmem =>
      hnew ((h.visited u).mpr (List.mem_append.mp hmem))
    rw [openNodes_push, openNodes_true]
    exact (List.perm_middle.nodup_iff).mpr (List.nodup_cons.mpr ⟨hfresh, h.nodup⟩)
  visited x := by
    have hx := h.visited x
    simp only [openNodes_false] at hx
    simp only [openNodes_push, openNodes_true, Set.mem_insert_iff, List.mem_cons, hx]
    tauto
  reachable x hx := by
    have hu : Reaches edge entry u := h.reachable u (Or.inr ⟨false, List.mem_cons_self⟩)
    rcases hx with (rfl | hvisited) | ⟨b, hstack⟩
    · exact hu
    · exact h.reachable x (Or.inl hvisited)
    · rcases List.mem_append.mp hstack with hmem | hmem
      · obtain ⟨s, hs, heq⟩ := List.mem_map.mp hmem
        cases heq
        exact hu.tail ((hpushed x).mp hs).1
      · rcases List.mem_cons.mp hmem with heq | hmem
        · cases heq
          exact hu
        · exact h.reachable x (Or.inr ⟨b, List.mem_cons_of_mem _ hmem⟩)
  chain := by
    obtain ⟨habove, hstack⟩ := List.pairwise_cons.mp h.chain
    refine List.pairwise_append.mpr ⟨?_, List.pairwise_cons.mpr ⟨habove, hstack⟩, ?_⟩
    · exact List.pairwise_map.mpr (List.pairwise_of_forall fun _ _ hopen => nomatch hopen)
    · intro x hx y hy hopen
      obtain ⟨s, hs, rfl⟩ := List.mem_map.mp hx
      have hedge := ((hpushed s).mp hs).1
      rcases List.mem_cons.mp hy with rfl | hy
      · exact .single hedge
      · exact (habove y hy hopen).tail hedge
  pending := by
    have hpending : Covered edge visited (insert u ∅) stack := h.pending
    refine Covered.push ⟨fun s hs => ?_, hpending.mono fun s hs => ?_⟩
    · by_cases hvisited : s ∈ insert u visited
      · exact Or.inl hvisited
      · exact Or.inr (Or.inr ((hpushed s).mpr ⟨hs, hvisited⟩))
    · rcases hs with hs | rfl | hs
      · exact Or.inl (Or.inr hs)
      · exact Or.inl (Or.inl rfl)
      · cases hs
  closed v hv t ht := Or.inr (h.closed v hv t ht)
  order := h.order

theorem Inv.step {entry : α} {s s' : State α} (h : Inv edge entry s) (hstep : Step edge s s') :
    Inv edge entry s' := by
  cases hstep with
  | leave u stack visited post => exact h.leave
  | skip stack post hold => exact h.skip hold
  | enter stack post hnew hpushed => exact h.enter hnew hpushed

theorem Inv.run {entry : α} {s s' : State α} (h : Inv edge entry s) (hrun : Run edge s s') :
    Inv edge entry s' := by
  induction hrun with
  | refl => exact h
  | tail _ hstep ih => exact ih.step hstep

-- ---------------------------------------------------------------------------
-- Finished runs
-- ---------------------------------------------------------------------------

/-- A finished run has visited what it lists, in a post-order. -/
theorem Run.postOrder {entry : α} {visited : Set α} {post : List α}
    (h : Run edge ⟨[(entry, false)], ∅, []⟩ ⟨[], visited, post⟩) :
    PostOrder edge entry post ∧ ∀ x, x ∈ visited ↔ x ∈ post := by
  have hinv := (Inv.init entry).run h
  have hvisited : ∀ x, x ∈ visited ↔ x ∈ post := fun x => by simpa [openNodes] using hinv.visited x
  refine ⟨⟨by simpa [openNodes] using hinv.nodup, fun x => ⟨fun hx => ?_, fun hx => ?_⟩,
    hinv.order⟩, hvisited⟩
  · exact hinv.reachable x (Or.inl ((hvisited x).mpr hx))
  · induction hx with
    | refl => exact (hvisited entry).mp (hinv.started.resolve_right List.not_mem_nil)
    | tail _ hedge ih => exact (hvisited _).mp (hinv.closed _ ih _ hedge)

/-- In reverse, only the edges that close a cycle go backwards. -/
theorem PostOrder.pairwise_reverse {entry : α} {post : List α} (h : PostOrder edge entry post) :
    post.reverse.Pairwise fun v u => edge u v → Reaches edge v u := by
  have hpairs : ∀ {l front : List α}, post = front ++ l →
      l.Pairwise fun u v => edge u v → Reaches edge v u := by
    intro l
    induction l with
    | nil => exact fun _ => List.Pairwise.nil
    | cons u l ih =>
      intro front hsplit
      refine List.pairwise_cons.mpr ⟨fun v hv hedge => ?_, ?_⟩
      · refine (h.order front u l hsplit v hedge).resolve_left fun hfront => ?_
        have hnodup := h.nodup
        rw [hsplit] at hnodup
        exact (List.disjoint_of_nodup_append hnodup) hfront (List.mem_cons_of_mem _ hv)
      · exact @ih (front ++ [u]) (by simpa using hsplit)
  exact List.pairwise_reverse.mpr (hpairs (List.nil_append post).symm)

end Dfs
