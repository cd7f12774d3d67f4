-- SUMMARY: The finished graph in closed form: every block of a successful build as a function of its part of the instruction list.
import DroidsawHermes.Decompile.CfgBlocks

/-!
# Built graphs

`builtBlock` writes the block of a part out. `Built` says that a graph consists of
these blocks, and `build_built` that every successful build gives such a graph.
-/

open Bytes

namespace Hermes.Decompile

/-! ## Closed forms -/

/-- The successors of the block of a part; it falls through to where it ends. -/
def partSuccessors (bytecodes : List UInt8) (ids : List BlockId) (part : List DecodedInst) :
    List BlockId :=
  match part.getLast? with
  | none => []
  | some last =>
    successorsOf bytecodes ids (knownTarget ids (instNextOffset last)).head? last

/-- The edges between the blocks, in block order. -/
def partEdges (bytecodes : List UInt8) (ps : List (List DecodedInst)) : List (BlockId × BlockId) :=
  ps.flatMap fun part =>
    (partSuccessors bytecodes (ps.map startOf) part).map fun s => (startOf part, s)

/-- The last handler whose range contains the block wins. -/
def lastHandler (excHandlers : List ExcHandler) (start stop : Nat) (init : Option BlockId) :
    Option BlockId :=
  excHandlers.foldl (fun catchBlock eh =>
    if start ≥ eh.start ∧ stop ≤ eh.stop then some eh.target else catchBlock) init

/-- The block of a part. -/
def builtBlock (excHandlers : List ExcHandler) (bytecodes : List UInt8)
    (ps : List (List DecodedInst)) (part : List DecodedInst) : BasicBlock where
  id := startOf part
  start := startOf part
  stop := stopOf part
  instructions := part
  successors := partSuccessors bytecodes (ps.map startOf) part
  predecessors := ((partEdges bytecodes ps).filter (·.2 = startOf part)).map Prod.fst
  excHandler := lastHandler excHandlers (startOf part) (stopOf part) none
  switchStringIds := part.getLast?.elim [] (stringIdsOf bytecodes)

/-- The graph has the blocks of the parts. -/
structure Built (insts : List DecodedInst) (excHandlers : List ExcHandler)
    (bytecodes : List UInt8) (boundaries : OrdSet Nat) (cfg : Cfg) : Prop where
  fits : ∀ inst ∈ insts, inst.stop ≤ u32Max
  boundary : ∀ p, p ∈ boundaries.keys ↔ IsBoundary insts excHandlers bytecodes p
  blocks : cfg.blocks.toList = (parts boundaries insts).map fun part =>
    (startOf part, builtBlock excHandlers bytecodes (parts boundaries insts) part)
  targets : ∀ eh ∈ excHandlers, eh.target ∈ (parts boundaries insts).map startOf
  entry : cfg.entry = 0
  excPredecessors : cfg.excPredecessors = excPredecessorsOf cfg.blocks

/-! ## Successors -/

/-- A block falls through to the next one exactly where it ends at a block. -/
theorem fallthrough_eq {boundaries : OrdSet Nat} {insts : List DecodedInst} {hi i : Nat}
    (htiles : InstTiles 0 hi insts) {part : List DecodedInst} {last : DecodedInst}
    (hpart : (parts boundaries insts)[i]? = some part) (hlast : part.getLast? = some last)
    (hfits : last.stop ≤ u32Max) :
    ((parts boundaries insts).map startOf)[i + 1]? =
      (knownTarget ((parts boundaries insts).map startOf) (instNextOffset last)).head? := by
  have hps := parts_tiles boundaries htiles
  have hstop : stopOf part = last.stop := by
    rw [stopOf, hlast]
    rfl
  have hmem := List.mem_of_getElem? hpart
  rw [List.getElem?_map, hps.start_next hpart, hstop, instNextOffset_eq_some.mpr ⟨hfits, rfl⟩]
  by_cases hend : last.stop < hi
  · obtain ⟨j, hj⟩ : ∃ j, (parts boundaries insts)[i + 1]?.map startOf = some j :=
      ⟨_, (hps.start_next hpart).trans (if_pos (hstop ▸ hend))⟩
    have hknown : last.stop ∈ (parts boundaries insts).map startOf := by
      have hval := (hps.start_next hpart).symm.trans hj
      rw [hstop, if_pos hend] at hval
      obtain ⟨q, hq, hqs⟩ := Option.map_eq_some_iff.mp hj
      rw [Option.some.inj hval, ← hqs]
      exact List.mem_map_of_mem (List.mem_of_getElem? hq)
    rw [if_pos hend, knownTarget, Option.toList_some, List.filter_singleton, decide_eq_true hknown]
    rfl
  · have hunknown : last.stop ∉ (parts boundaries insts).map startOf := by
      intro hknown
      obtain ⟨q, hq, hqs⟩ := List.mem_map.mp hknown
      have hb := hps.bounds hq
      omega
    rw [if_neg hend, knownTarget, Option.toList_some, List.filter_singleton,
      decide_eq_false hunknown]
    rfl

theorem addSuccessors_spec {boundaries : OrdSet Nat} {insts : List DecodedInst} {hi : Nat}
    {bytecodes : List UInt8} {blocks : BlockMap} (htiles : InstTiles 0 hi insts)
    (hfits : ∀ inst ∈ insts, inst.stop ≤ u32Max)
    (hblocks : blocks.toList = (parts boundaries insts).map fun part =>
      (startOf part, partBlock part)) :
    (addSuccessors bytecodes blocks).toList = (parts boundaries insts).map fun part =>
      (startOf part, { partBlock part with
        successors := partSuccessors bytecodes ((parts boundaries insts).map startOf) part
        switchStringIds := part.getLast?.elim [] (stringIdsOf bytecodes) }) := by
  have hkeys : blocks.keys = (parts boundaries insts).map startOf := by
    simp [OrdMap.keys, hblocks, Function.comp_def]
  apply List.ext_getElem?
  intro i
  simp only [addSuccessors, OrdMap.mapIdx, List.getElem?_mapIdx, hblocks, List.getElem?_map,
    Option.map_map]
  cases hpart : (parts boundaries insts)[i]? with
  | none => rfl
  | some part =>
    have hmem := List.mem_of_getElem? hpart
    obtain ⟨last, hlast, hlastMem⟩ := exists_getLast hmem
    simp only [Option.map_some, Function.comp_apply, partBlock, BasicBlock.new, hlast, hkeys,
      partSuccessors, Option.elim_some, fallthrough_eq htiles hpart hlast (hfits last hlastMem)]

/-! ## Predecessors and handlers -/

theorem foldl_pushPredecessor (edges : List (BlockId × BlockId)) (blocks : BlockMap) :
    edges.foldl (fun blocks edge =>
        blocks.modify edge.2 fun b => { b with predecessors := b.predecessors ++ [edge.1] })
      blocks =
    blocks.mapVal fun k b =>
      { b with predecessors := b.predecessors ++ (edges.filter (·.2 = k)).map Prod.fst } := by
  induction edges generalizing blocks with
  | nil =>
    apply OrdMap.ext
    simp [OrdMap.mapVal]
  | cons edge edges ih =>
    rw [List.foldl_cons, ih, OrdMap.modify, OrdMap.mapVal_mapVal]
    congr 1
    funext k b
    by_cases hk : k = edge.2
    · simp [hk]
    · have hk' : edge.2 ≠ k := fun h => hk h.symm
      simp [hk, hk']

theorem foldlM_markHandler {excHandlers : List ExcHandler} {blocks blocks' : BlockMap}
    (h : excHandlers.foldlM markHandler blocks = .ok blocks') :
    (∀ eh ∈ excHandlers, eh.target ∈ blocks.keys) ∧
      blocks' = blocks.mapVal fun _ b =>
        { b with excHandler := lastHandler excHandlers b.start b.stop b.excHandler } := by
  induction excHandlers generalizing blocks with
  | nil =>
    cases h
    refine ⟨by simp, ?_⟩
    apply OrdMap.ext
    simp [OrdMap.mapVal, lastHandler]
  | cons eh rest ih =>
    rw [List.foldlM_cons] at h
    obtain ⟨marked, hstep, hrest⟩ := Loop.bind_eq_ok.mp h
    simp only [markHandler] at hstep
    split at hstep
    · next htarget =>
      cases hstep
      obtain ⟨htargets, heq⟩ := ih hrest
      refine ⟨List.forall_mem_cons.mpr ⟨htarget, ?_⟩, ?_⟩
      · simpa using htargets
      · rw [heq, OrdMap.mapVal_mapVal]
        congr 1
        funext _ b
        by_cases hin : b.start ≥ eh.start ∧ b.stop ≤ eh.stop
        · simp [lastHandler, hin]
        · simp [lastHandler, hin]
    · cases hstep

/-! ## The search -/

/-- What the search may still push: twice the edges out of the blocks that it has
not visited. -/
def pendingEdges (visited : OrdSet BlockId) (l : List (BlockId × BasicBlock)) : Nat :=
  (l.map fun x => if x.1 ∈ visited.keys then 0 else 2 * x.2.successors.length).sum

/-- An entry to leave costs one round, an entry to enter at most two. -/
def stackWeight (stack : List (BlockId × Bool)) : Nat :=
  (stack.map fun x => if x.2 then 1 else 2).sum

theorem stackWeight_enter (succs : List BlockId) :
    stackWeight (succs.map (·, false)) = 2 * succs.length := by
  simp [stackWeight, Function.comp_def, Nat.mul_comm]

theorem pendingEdges_insert_le (visited : OrdSet BlockId) (bid : BlockId)
    (l : List (BlockId × BasicBlock)) :
    pendingEdges (visited.insert bid) l ≤ pendingEdges visited l := by
  induction l with
  | nil => exact Nat.le_refl _
  | cons x l ih =>
    simp only [pendingEdges, List.map_cons, List.sum_cons, OrdSet.mem_insert] at ih ⊢
    by_cases hx : x.1 ∈ visited.keys
    · simp only [hx, or_true, if_true]
      omega
    · by_cases hbid : x.1 = bid
      · simp only [hbid, true_or, if_true]
        omega
      · simp only [hx, hbid, or_self, if_false]
        omega

theorem pendingEdges_insert_add {visited : OrdSet BlockId} {bid : BlockId} {block : BasicBlock}
    {l : List (BlockId × BasicBlock)} (hmem : (bid, block) ∈ l) (hnew : bid ∉ visited.keys) :
    pendingEdges (visited.insert bid) l + 2 * block.successors.length ≤ pendingEdges visited l := by
  induction l with
  | nil => cases hmem
  | cons x l ih =>
    have hmono := pendingEdges_insert_le visited bid l
    simp only [pendingEdges, List.map_cons, List.sum_cons, OrdSet.mem_insert] at ih hmono ⊢
    rcases List.mem_cons.mp hmem with rfl | hmem
    · simp only [true_or, if_true, hnew, if_false]
      omega
    · have hrest := ih hmem
      by_cases hx : x.1 ∈ visited.keys
      · simp only [hx, or_true, if_true]
        omega
      · by_cases hbid : x.1 = bid
        · simp only [hbid, true_or, if_true]
          omega
        · simp only [hx, hbid, or_self, if_false]
          omega

/-- The fuel is enough. -/
theorem dfsLoop_total {blocks : BlockMap} {fuel : Nat} {stack : List (BlockId × Bool)}
    {visited : OrdSet BlockId} {postOrder : List BlockId}
    (hfuel : pendingEdges visited blocks.toList + stackWeight stack ≤ fuel) :
    ∃ r, dfsLoop blocks fuel stack visited postOrder = some r := by
  induction fuel generalizing stack visited postOrder with
  | zero =>
    cases stack with
    | nil => exact ⟨_, rfl⟩
    | cons x stack =>
      simp only [stackWeight, List.map_cons, List.sum_cons] at hfuel
      split at hfuel <;> omega
  | succ fuel ih =>
    match stack with
    | [] => exact ⟨_, rfl⟩
    | (bid, true) :: stack =>
      simp only [stackWeight, List.map_cons, List.sum_cons, if_true] at hfuel
      exact ih (by simp only [stackWeight]; omega)
    | (bid, false) :: stack =>
      simp only [stackWeight, List.map_cons, List.sum_cons, Bool.false_eq_true, if_false] at hfuel
      simp only [dfsLoop]
      split
      · exact ih (by simp only [stackWeight]; omega)
      · next hnew =>
        apply ih
        simp only [stackWeight, List.map_append, List.map_cons, List.sum_append, List.sum_cons,
          if_true, List.map_map]
        cases hget : blocks.get? bid with
        | none =>
          have hmono := pendingEdges_insert_le visited bid blocks.toList
          simp only [List.map_nil, List.sum_nil]
          omega
        | some block =>
          have hpend := pendingEdges_insert_add (OrdMap.get?_eq_some_iff.mp hget) hnew
          have hlen := List.length_filter_le (fun s => decide (s ∉ (visited.insert bid).keys))
            block.successors
          have hsum := stackWeight_enter (block.successors.filter fun s =>
            decide (s ∉ (visited.insert bid).keys))
          simp only [stackWeight, List.map_map] at hsum
          simp only [hsum]
          omega

theorem dfsLoop_start (blocks : BlockMap) (entry : BlockId) :
    ∃ r, dfsLoop blocks (dfsFuel blocks) [(entry, false)] .empty [] = some r := by
  apply dfsLoop_total
  simp [pendingEdges, stackWeight, dfsFuel, OrdSet.empty, OrdMap.empty, OrdMap.keys,
    OrdMap.values, Function.comp_def]

/-- The bottom of the stack is left last. -/
theorem dfsLoop_getLast {blocks : BlockMap} {fuel : Nat} {stack : List (BlockId × Bool)}
    {visited visited' : OrdSet BlockId} {postOrder postOrder' : List BlockId} {entry : BlockId}
    (h : dfsLoop blocks fuel (stack ++ [(entry, true)]) visited postOrder =
      some (visited', postOrder')) : postOrder'.getLast? = some entry := by
  induction fuel generalizing stack visited postOrder with
  | zero => cases stack <;> simp [dfsLoop] at h
  | succ fuel ih =>
    match stack with
    | [] =>
      cases fuel <;>
      · simp only [List.nil_append, dfsLoop, Option.some.injEq, Prod.mk.injEq] at h
        rw [← h.2]
        simp
    | (bid, true) :: stack =>
      simp only [List.cons_append, dfsLoop] at h
      exact ih h
    | (bid, false) :: stack =>
      simp only [List.cons_append, dfsLoop] at h
      split at h
      · exact ih h
      · rw [← List.cons_append, ← List.append_assoc] at h
        exact ih h

/-- The order starts at the first block. -/
theorem reversePostOrder_head (blocks : BlockMap) :
    (reversePostOrder blocks).head? = blocks.keys.head? := by
  simp only [reversePostOrder]
  cases hentry : blocks.keys.head? with
  | none => rfl
  | some entry =>
    obtain ⟨⟨visited, postOrder⟩, hrun⟩ := dfsLoop_start blocks entry
    simp only [hrun]
    have hlast : postOrder.getLast? = some entry := by
      rw [dfsFuel] at hrun
      simp only [dfsLoop] at hrun
      split at hrun
      · next hmem => simp [OrdSet.empty, OrdMap.empty, OrdMap.keys] at hmem
      · exact dfsLoop_getLast hrun
    rw [List.head?_append, List.head?_reverse, hlast]
    rfl

/-! ## build -/

/-- The blocks of a successful build, part by part. -/
theorem build_built {insts : List DecodedInst} {excHandlers : List ExcHandler}
    {bytecodes : List UInt8} {cfg : Cfg} {hi : Nat} (hne : insts ≠ [])
    (htiles : (∀ inst ∈ insts, inst.stop ≤ u32Max) → InstTiles 0 hi insts)
    (h : Cfg.build insts excHandlers bytecodes = .ok cfg) :
    ∃ boundaries, Built insts excHandlers bytecodes boundaries cfg := by
  rw [Cfg.build, if_neg hne] at h
  obtain ⟨boundaries, hboundaries, h⟩ := Loop.bind_eq_ok.mp h
  obtain ⟨split, hsplit, h⟩ := Loop.bind_eq_ok.mp h
  obtain ⟨marked, hmarked, h⟩ := Loop.bind_eq_ok.mp h
  obtain ⟨_, -, h⟩ := Loop.bind_eq_ok.mp h
  cases h
  obtain ⟨hfits, hboundary⟩ := findBoundaries_spec hboundaries
  have htiles := htiles hfits
  obtain ⟨m, hm, hlist⟩ := @splitBlocks_spec boundaries _ _ hne htiles hfits
  cases hsplit.symm.trans hm
  have hsuccs := @addSuccessors_spec _ _ _ bytecodes _ htiles hfits hlist
  obtain ⟨htargets, hblocks⟩ := foldlM_markHandler hmarked
  have hedges : ((addSuccessors bytecodes split).values.flatMap fun b =>
      b.successors.map fun s => (b.id, s)) = partEdges bytecodes (parts boundaries insts) := by
    rw [OrdMap.values, hsuccs, List.map_map, partEdges, List.flatMap_map]
    rfl
  have hfilled : addPredecessors (addSuccessors bytecodes split) =
      (addSuccessors bytecodes split).mapVal fun k b => { b with
        predecessors := b.predecessors ++
          ((partEdges bytecodes (parts boundaries insts)).filter (·.2 = k)).map Prod.fst } := by
    rw [addPredecessors, hedges, foldl_pushPredecessor]
  have hlistMarked : marked.toList = (parts boundaries insts).map fun part =>
      (startOf part, builtBlock excHandlers bytecodes (parts boundaries insts) part) := by
    rw [hblocks, hfilled, OrdMap.mapVal_mapVal, OrdMap.toList_mapVal, hsuccs, List.map_map]
    rfl
  have hkeys : marked.keys = (parts boundaries insts).map startOf := by
    simp [OrdMap.keys, hlistMarked, Function.comp_def]
  have hkeysFilled : (addPredecessors (addSuccessors bytecodes split)).keys = marked.keys := by
    rw [hblocks, OrdMap.keys_mapVal]
  refine ⟨boundaries, hfits, hboundary, hlistMarked, ?_, ?_, rfl⟩
  · rw [← hkeys, ← hkeysFilled]
    exact htargets
  · -- the first block starts at 0
    rw [reversePostOrder_head, hkeys, List.head?_map]
    have hps := parts_tiles boundaries htiles
    cases hparts : parts boundaries insts with
    | nil => rfl
    | cons part rest =>
      rw [hparts] at hps
      exact hps.1

/-- The instructions of a block are among those of the body. -/
theorem mem_of_mem_block {t : OpcodeTables} {cfg : Cfg} {code bytecodes : List UInt8}
    {insts : List DecodedInst} {excHandlers : List ExcHandler}
    (hdecode : decodeFunction t code = .ok insts)
    (hcfg : Cfg.build insts excHandlers bytecodes = .ok cfg) {id : BlockId} {block : BasicBlock}
    (hget : cfg.blocks.get? id = some block) : ∀ inst ∈ block.instructions, inst ∈ insts := by
  have hmem := OrdMap.get?_eq_some_iff.mp hget
  by_cases hne : insts = []
  · subst hne
    rw [Cfg.build, if_pos rfl] at hcfg
    cases hcfg
    cases List.mem_singleton.mp hmem
    exact nofun
  · have htiles := fun hfits => (decodeFunction_spec hdecode).tiles hfits (Nat.zero_le _)
    obtain ⟨boundaries, hbuilt⟩ := build_built hne htiles hcfg
    rw [hbuilt.blocks] at hmem
    obtain ⟨part, hpart, heq⟩ := List.mem_map.mp hmem
    obtain ⟨-, rfl⟩ := Prod.mk.inj heq
    exact fun inst hinst => mem_of_mem_parts hpart hinst

end Hermes.Decompile
