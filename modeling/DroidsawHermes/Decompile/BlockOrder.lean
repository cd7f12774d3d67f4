-- SUMMARY: The block order of every built graph is a reverse post-order, with each handler behind the blocks it catches for.
import DroidsawHermes.Decompile.CfgWellFormed
import DroidsawHermes.Lib.Dfs
import Mathlib.Order.Bounds.Basic

/-!
# Block order

The loop of the search is a run of `Dfs`, so what it lists is a post-order of the
blocks that the entry reaches. Nothing here depends on how the instructions were
decoded: `Keyed` holds of the blocks of every instruction list.
-/

open Bytes

namespace Hermes.Decompile

/-- `v` is a successor of `u`. -/
def BlockMap.Edge (blocks : BlockMap) (u v : BlockId) : Prop :=
  ∃ b, blocks.get? u = some b ∧ v ∈ b.successors

/-- A path along successors. -/
abbrev Cfg.Reaches (cfg : Cfg) : BlockId → BlockId → Prop := Dfs.Reaches (BlockMap.Edge cfg.blocks)

/-- What `block_order` is. -/
structure Cfg.ReversePostOrder (cfg : Cfg) : Prop where
  ids : ∀ k b, cfg.blocks.get? k = some b → b.id = k
  perm : cfg.blockOrder.Perm cfg.blocks.keys
  first : cfg.blockOrder.head? = some cfg.entry
  lowest : IsLeast {k | k ∈ cfg.blocks.keys} cfg.entry
  reachedFirst : ∃ reached rest, cfg.blockOrder = reached ++ rest ∧
    (∀ x, x ∈ reached ↔ cfg.Reaches cfg.entry x) ∧ rest.Pairwise (· < ·)
  backEdges : ∀ i j u v : Nat, cfg.blockOrder[i]? = some u → cfg.blockOrder[j]? = some v →
    cfg.Reaches cfg.entry u → cfg.Reaches cfg.entry v →
    BlockMap.Edge cfg.blocks u v → j ≤ i → cfg.Reaches v u
  topological : (∀ u, cfg.Reaches cfg.entry u →
      ¬ Relation.TransGen (BlockMap.Edge cfg.blocks) u u) →
    ∀ i j u v : Nat, cfg.blockOrder[i]? = some u → cfg.blockOrder[j]? = some v →
      cfg.Reaches cfg.entry u → BlockMap.Edge cfg.blocks u v → i < j
  handlers : ∀ u b c, cfg.blocks.get? u = some b → b.excHandler = some c →
    ∃ i j : Nat, i < j ∧ cfg.blockOrder[i]? = some u ∧ cfg.blockOrder[j]? = some c

/-! ## Block maps -/

/-- Blocks under their own ids, with edges and handlers that are blocks. -/
structure BlockMap.Keyed (blocks : BlockMap) : Prop where
  ids : ∀ k b, blocks.get? k = some b → b.id = k
  successors : ∀ k b, blocks.get? k = some b → ∀ s ∈ b.successors, s ∈ blocks.keys
  handler : ∀ k b, blocks.get? k = some b → ∀ c, b.excHandler = some c → c ∈ blocks.keys

/-- A change of the other fields. -/
theorem BlockMap.Keyed.mapVal {blocks : BlockMap} (h : BlockMap.Keyed blocks)
    {f : BlockId → BasicBlock → BasicBlock} (hid : ∀ k b, (f k b).id = b.id)
    (hsuccessors : ∀ k b, (f k b).successors = b.successors)
    (hhandler : ∀ k b c, (f k b).excHandler = some c → b.excHandler = some c ∨ c ∈ blocks.keys) :
    BlockMap.Keyed (blocks.mapVal f) := by
  have hget : ∀ k b, (blocks.mapVal f).get? k = some b →
      ∃ b₀, blocks.get? k = some b₀ ∧ f k b₀ = b := by
    intro k b hb
    rw [OrdMap.get?_mapVal] at hb
    exact Option.map_eq_some_iff.mp hb
  refine ⟨fun k b hb => ?_, fun k b hb s hs => ?_, fun k b hb c hc => ?_⟩
  · obtain ⟨b₀, hb₀, rfl⟩ := hget k b hb
    rw [hid, h.ids k b₀ hb₀]
  · obtain ⟨b₀, hb₀, rfl⟩ := hget k b hb
    rw [hsuccessors] at hs
    rw [OrdMap.keys_mapVal]
    exact h.successors k b₀ hb₀ s hs
  · obtain ⟨b₀, hb₀, rfl⟩ := hget k b hb
    rw [OrdMap.keys_mapVal]
    exact (hhandler k b₀ c hc).elim (h.handler k b₀ hb₀ c) id

/-- The blocks that splitting makes have no edges yet. -/
def BlockMap.Fresh (blocks : BlockMap) : Prop :=
  ∀ k b, blocks.get? k = some b → b.id = k ∧ b.successors = [] ∧ b.excHandler = none

theorem BlockMap.Fresh.keyed {blocks : BlockMap} (h : BlockMap.Fresh blocks) :
    BlockMap.Keyed blocks where
  ids k b hb := (h k b hb).1
  successors k b hb s hs := by
    rw [(h k b hb).2.1] at hs
    cases hs
  handler k b hb c hc := by
    rw [(h k b hb).2.2] at hc
    cases hc

theorem BlockMap.Fresh.empty : BlockMap.Fresh .empty := fun _ _ hb => nomatch hb

theorem BlockMap.Fresh.insert {blocks : BlockMap} (h : BlockMap.Fresh blocks) (start stop : Nat)
    (insts : List DecodedInst) :
    BlockMap.Fresh (OrdMap.insert blocks start (.new start stop insts)) := by
  intro k b hb
  rw [OrdMap.get?_insert] at hb
  split at hb
  · next heq =>
    cases hb
    exact ⟨heq.symm, rfl, rfl⟩
  · exact h k b hb

theorem splitStep_fresh {boundaries : OrdSet Nat} {s : Splitting} (inst : DecodedInst)
    (h : BlockMap.Fresh s.blocks) : BlockMap.Fresh (splitStep boundaries s inst).blocks := by
  simp only [splitStep]
  split
  · exact h.insert _ _ _
  · exact h

theorem foldl_splitStep_fresh {boundaries : OrdSet Nat} (insts : List DecodedInst) {s : Splitting}
    (h : BlockMap.Fresh s.blocks) :
    BlockMap.Fresh (insts.foldl (splitStep boundaries) s).blocks := by
  induction insts generalizing s with
  | nil => exact h
  | cons inst insts ih => exact ih (splitStep_fresh inst h)

theorem foldl_splitStep_insts {boundaries : OrdSet Nat} {insts : List DecodedInst}
    (hne : insts ≠ []) (s : Splitting) :
    (insts.foldl (splitStep boundaries) s).currentBlockInsts ≠ [] := by
  induction insts generalizing s with
  | nil => exact absurd rfl hne
  | cons inst insts ih =>
    cases insts with
    | nil => simp [splitStep]
    | cons next insts => exact ih (List.cons_ne_nil _ _) _

theorem splitBlocks_fresh {boundaries : OrdSet Nat} {insts : List DecodedInst} {blocks : BlockMap}
    (hne : insts ≠ []) (h : splitBlocks boundaries insts = .ok blocks) :
    BlockMap.Fresh blocks ∧ blocks.keys ≠ [] := by
  rw [splitBlocks, finishSplit] at h
  have hinsts := @foldl_splitStep_insts boundaries insts hne ⟨.empty, [], 0⟩
  have hfresh := @foldl_splitStep_fresh boundaries insts ⟨.empty, [], 0⟩ BlockMap.Fresh.empty
  split at h
  · next hnone => exact absurd (List.getLast?_eq_none_iff.mp hnone) hinsts
  · split at h
    · cases h
    · cases h
      exact ⟨hfresh.insert _ _ _, List.ne_nil_of_mem (OrdMap.mem_keys_insert.mpr (Or.inl rfl))⟩

theorem addSuccessors_keyed {blocks : BlockMap} (bytecodes : List UInt8)
    (h : BlockMap.Fresh blocks) : BlockMap.Keyed (addSuccessors bytecodes blocks) := by
  have hkeys : (addSuccessors bytecodes blocks).keys = blocks.keys := OrdMap.keys_mapIdx _ _
  have hnew : ∀ k b, (addSuccessors bytecodes blocks).get? k = some b →
      b.id = k ∧ (∀ s ∈ b.successors, s ∈ blocks.keys) ∧ b.excHandler = none := by
    intro k b hb
    obtain ⟨i, b₀, hb₀, rfl⟩ := OrdMap.exists_of_get?_mapIdx hb
    obtain ⟨hid, hsuccessors, hhandler⟩ := h k b₀ hb₀
    split
    · exact ⟨hid, by simp [hsuccessors], hhandler⟩
    · refine ⟨hid, fun s hs => mem_of_mem_successorsOf (fun t ht => ?_) hs, hhandler⟩
      exact List.mem_of_getElem? ht
  exact ⟨fun k b hb => (hnew k b hb).1, fun k b hb => hkeys ▸ (hnew k b hb).2.1,
    fun k b hb c hc => nomatch (hnew k b hb).2.2 ▸ hc⟩

theorem addPredecessors_keyed {blocks : BlockMap} (h : BlockMap.Keyed blocks) :
    BlockMap.Keyed (addPredecessors blocks) := by
  rw [addPredecessors, foldl_pushPredecessor]
  exact h.mapVal (fun _ _ => rfl) (fun _ _ => rfl) (fun _ _ _ hc => Or.inl hc)

theorem markHandler_keyed {blocks blocks' : BlockMap} {eh : ExcHandler}
    (h : BlockMap.Keyed blocks) (hstep : markHandler blocks eh = .ok blocks') :
    BlockMap.Keyed blocks' ∧ blocks'.keys = blocks.keys := by
  simp only [markHandler] at hstep
  split at hstep
  · next htarget =>
    cases hstep
    refine ⟨h.mapVal (fun k b => ?_) (fun k b => ?_) (fun k b c hc => ?_), OrdMap.keys_mapVal _ _⟩
    · split <;> rfl
    · split <;> rfl
    · split at hc
      · cases hc
        exact Or.inr htarget
      · exact Or.inl hc
  · cases hstep

theorem foldlM_markHandler_keyed {excHandlers : List ExcHandler} {blocks blocks' : BlockMap}
    (h : BlockMap.Keyed blocks) (hrun : excHandlers.foldlM markHandler blocks = .ok blocks') :
    BlockMap.Keyed blocks' ∧ blocks'.keys = blocks.keys := by
  refine Loop.foldlM_invariant (fun m => BlockMap.Keyed m ∧ m.keys = blocks.keys)
    (fun m eh _ m' hm hstep => ?_) ⟨h, rfl⟩ hrun
  obtain ⟨hkeyed, hkeys⟩ := markHandler_keyed hm.1 hstep
  exact ⟨hkeyed, hkeys.trans hm.2⟩

/-! ## The search -/

/-- The loop does steps of the search until the stack is empty. -/
theorem dfsLoop_run {blocks : BlockMap} {fuel : Nat} {stack : List (BlockId × Bool)}
    {visited visited' : OrdSet BlockId} {post post' : List BlockId}
    (h : dfsLoop blocks fuel stack visited post = some (visited', post')) :
    Dfs.Run (BlockMap.Edge blocks) ⟨stack, {x | x ∈ visited.keys}, post⟩
      ⟨[], {x | x ∈ visited'.keys}, post'⟩ := by
  induction fuel generalizing stack visited post with
  | zero =>
    cases stack with
    | nil =>
      cases h
      exact .refl
    | cons x stack => cases h
  | succ fuel ih =>
    match stack with
    | [] =>
      cases h
      exact .refl
    | (bid, true) :: stack => exact .head (.leave bid stack _ post) (ih h)
    | (bid, false) :: stack =>
      simp only [dfsLoop] at h
      split at h
      · next hold => exact .head (.skip stack post hold) (ih h)
      · next hnew =>
        have hinsert : {x | x ∈ (visited.insert bid).keys} =
            insert bid {x | x ∈ visited.keys} := Set.ext fun x => OrdSet.mem_insert
        have hrest := ih h
        rw [hinsert] at hrest
        refine .head (.enter stack post hnew fun s => ?_) hrest
        rw [← hinsert]
        cases hget : blocks.get? bid with
        | none => simp [BlockMap.Edge, hget]
        | some block => simp [BlockMap.Edge, hget]

/-- From the lowest block the search ends, and lists what that block reaches. -/
theorem reversePostOrder_search {blocks : BlockMap} {entry : BlockId}
    (hentry : blocks.keys.head? = some entry) :
    ∃ post, Dfs.PostOrder (BlockMap.Edge blocks) entry post ∧
      reversePostOrder blocks = post.reverse ++ blocks.keys.filter (· ∉ post) := by
  obtain ⟨⟨visited, post⟩, hloop⟩ := dfsLoop_start blocks entry
  have hrun := dfsLoop_run hloop
  have hnone : {x | x ∈ (OrdSet.empty : OrdSet BlockId).keys} = ∅ :=
    Set.eq_empty_of_forall_notMem fun _ => List.not_mem_nil
  rw [hnone] at hrun
  obtain ⟨hpost, hvisited⟩ := hrun.postOrder
  refine ⟨post, hpost, ?_⟩
  simp only [reversePostOrder, hentry, hloop]
  congr 1
  exact List.filter_congr fun x _ => by simpa using hvisited x

/-! ## Positions -/

/-- Invariant 7 compares the positions in the order. -/
theorem checkLayout_handlers {blocks : BlockMap} {blockOrder : List BlockId}
    (hkeyed : BlockMap.Keyed blocks) (hperm : blockOrder.Perm blocks.keys)
    (hcheck : checkLayout blocks blockOrder = .ok ()) {u c : BlockId} {b : BasicBlock}
    (hb : blocks.get? u = some b) (hc : b.excHandler = some c) :
    ∃ i j : Nat, i < j ∧ blockOrder[i]? = some u ∧ blockOrder[j]? = some c := by
  have hnodup : (blockOrder.zipIdx.map Prod.fst).Nodup := by
    rw [List.zipIdx_map_fst]
    exact hperm.nodup_iff.mpr blocks.keys_nodup
  have hpos : ∀ k ∈ blocks.keys, ∃ i, blockOrder[i]? = some k ∧
      (blockOrder.zipIdx.foldl (fun m x => m.insert x.1 x.2)
        (.empty : OrdMap BlockId Nat)).get? k = some i := by
    intro k hk
    obtain ⟨i, hi⟩ := List.mem_iff_getElem?.mp (hperm.mem_iff.mpr hk)
    exact ⟨i, hi, OrdMap.get?_foldl_insert hnodup (List.mem_zipIdx_iff_getElem?.mpr hi)⟩
  obtain ⟨i, hi, hposi⟩ := hpos u (OrdMap.mem_keys_iff.mpr ⟨b, hb⟩)
  obtain ⟨j, hj, hposj⟩ := hpos c (hkeyed.handler u b hb c hc)
  have hmem : b ∈ blocks.values := List.mem_map_of_mem (OrdMap.get?_eq_some_iff.mp hb)
  have hafter := Loop.forall_of_foldlM
    (Q := fun b => checkCatchAfter _ b = .ok ()) (fun _ _ _ h => h) hcheck b hmem
  simp only [checkCatchAfter, hc, hkeyed.ids u b hb, hposi, hposj, Option.getD_some] at hafter
  refine ⟨i, j, ?_, hi, hj⟩
  by_contra hle
  rw [if_pos (Nat.not_lt.mp hle)] at hafter
  cases hafter

/-- An edge that does not go forward closes a cycle. -/
theorem reversePostOrder_backEdge {blocks : BlockMap} {entry : BlockId} {post : List BlockId}
    (hpost : Dfs.PostOrder (BlockMap.Edge blocks) entry post) {rest : List BlockId}
    (hnodup : (post.reverse ++ rest).Nodup) {i j : Nat} {u v : BlockId}
    (hi : (post.reverse ++ rest)[i]? = some u) (hj : (post.reverse ++ rest)[j]? = some v)
    (hu : u ∈ post) (hedge : BlockMap.Edge blocks u v) (hle : j ≤ i) :
    Dfs.Reaches (BlockMap.Edge blocks) v u := by
  have hfront : i < post.reverse.length := by
    by_contra hlen
    rw [List.getElem?_append_right (Nat.not_lt.mp hlen)] at hi
    exact List.disjoint_of_nodup_append hnodup (List.mem_reverse.mpr hu)
      (List.mem_of_getElem? hi)
  rw [List.getElem?_append_left hfront] at hi
  rw [List.getElem?_append_left (Nat.lt_of_le_of_lt hle hfront)] at hj
  rcases Nat.lt_or_eq_of_le hle with hlt | rfl
  · obtain ⟨_, rfl⟩ := List.getElem?_eq_some_iff.mp hi
    obtain ⟨_, rfl⟩ := List.getElem?_eq_some_iff.mp hj
    exact List.pairwise_iff_getElem.mp hpost.pairwise_reverse j i _ _ hlt hedge
  · cases hi.symm.trans hj
    exact .refl

/-! ## build -/

/-- How a build arranges its blocks. -/
theorem build_arranged {insts : List DecodedInst} {excHandlers : List ExcHandler}
    {bytecodes : List UInt8} {cfg : Cfg} (h : Cfg.build insts excHandlers bytecodes = .ok cfg) :
    BlockMap.Keyed cfg.blocks ∧ cfg.blocks.keys ≠ [] ∧
      cfg.blockOrder = reversePostOrder cfg.blocks ∧
      cfg.entry = cfg.blockOrder.head?.getD 0 ∧ checkLayout cfg.blocks cfg.blockOrder = .ok () := by
  by_cases hne : insts = []
  · rw [Cfg.build, if_pos hne] at h
    cases h
    exact ⟨(BlockMap.Fresh.empty.insert 0 0 []).keyed, List.cons_ne_nil _ _, rfl, rfl, rfl⟩
  · rw [Cfg.build, if_neg hne] at h
    obtain ⟨boundaries, -, h⟩ := Loop.bind_eq_ok.mp h
    obtain ⟨split, hsplit, h⟩ := Loop.bind_eq_ok.mp h
    obtain ⟨marked, hmarked, h⟩ := Loop.bind_eq_ok.mp h
    obtain ⟨⟨⟩, hcheck, h⟩ := Loop.bind_eq_ok.mp h
    cases h
    obtain ⟨hfresh, hkeys⟩ := splitBlocks_fresh hne hsplit
    have hedges := addPredecessors_keyed (addSuccessors_keyed bytecodes hfresh)
    obtain ⟨hkeyed, hkeys'⟩ := foldlM_markHandler_keyed hedges hmarked
    have hsame : (addPredecessors (addSuccessors bytecodes split)).keys = split.keys := by
      rw [addPredecessors, foldl_pushPredecessor, OrdMap.keys_mapVal]
      exact OrdMap.keys_mapIdx _ _
    refine ⟨hkeyed, ?_, rfl, rfl, hcheck⟩
    rw [hkeys', hsame]
    exact hkeys

theorem BlockMap.Keyed.reaches_mem {blocks : BlockMap} (h : BlockMap.Keyed blocks) {u v : BlockId}
    (hu : u ∈ blocks.keys) (hpath : Dfs.Reaches (BlockMap.Edge blocks) u v) : v ∈ blocks.keys := by
  induction hpath with
  | refl => exact hu
  | tail _ hedge _ =>
    obtain ⟨b, hb, hs⟩ := hedge
    exact h.successors _ b hb _ hs

/-- The block order of a built graph is a reverse post-order of what the entry
reaches, with the other blocks behind it, and every handler comes after the blocks
it catches for. -/
theorem reversePostOrder_of_build {insts : List DecodedInst} {excHandlers : List ExcHandler}
    {bytecodes : List UInt8} {cfg : Cfg} (h : Cfg.build insts excHandlers bytecodes = .ok cfg) :
    cfg.ReversePostOrder := by
  obtain ⟨hkeyed, hne, horder, hentry, hcheck⟩ := build_arranged h
  obtain ⟨entry, rest, hkeys⟩ := List.exists_cons_of_ne_nil hne
  have hhead : cfg.blocks.keys.head? = some entry := by rw [hkeys, List.head?_cons]
  have hfirst : cfg.blockOrder.head? = some entry := by
    rw [horder, reversePostOrder_head, hhead]
  have heq : cfg.entry = entry := by rw [hentry, hfirst, Option.getD_some]
  have hmem : entry ∈ cfg.blocks.keys := List.mem_of_head? hhead
  obtain ⟨post, hpost, hsplit⟩ := reversePostOrder_search hhead
  rw [horder] at hcheck
  have hreached : ∀ x, x ∈ post.reverse ↔ cfg.Reaches entry x := fun x =>
    List.mem_reverse.trans (hpost.mem_iff x)
  have hnodup : (post.reverse ++ cfg.blocks.keys.filter (· ∉ post)).Nodup := by
    refine List.Nodup.append (List.nodup_reverse.mpr hpost.nodup)
      (cfg.blocks.keys_nodup.filter _) fun x hx hrest => ?_
    simpa [List.mem_reverse.mp hx] using List.of_mem_filter hrest
  have hperm : (reversePostOrder cfg.blocks).Perm cfg.blocks.keys := by
    rw [hsplit]
    refine (List.perm_ext_iff_of_nodup hnodup cfg.blocks.keys_nodup).mpr fun x => ?_
    by_cases hx : x ∈ post
    · have hkey := hkeyed.reaches_mem hmem ((hpost.mem_iff x).mp hx)
      simp [hx, hkey]
    · simp [hx]
  have hback : ∀ i j u v : Nat, cfg.blockOrder[i]? = some u → cfg.blockOrder[j]? = some v →
      cfg.Reaches entry u → BlockMap.Edge cfg.blocks u v → j ≤ i → cfg.Reaches v u := by
    intro i j u v hi hj hu hedge hle
    rw [horder, hsplit] at hi hj
    exact reversePostOrder_backEdge hpost hnodup hi hj ((hpost.mem_iff u).mpr hu) hedge hle
  subst heq
  refine ⟨hkeyed.ids, horder ▸ hperm, hfirst, ⟨hmem, fun k hk => ?_⟩,
    ⟨post.reverse, _, horder.trans hsplit, hreached, cfg.blocks.keys_sorted.filter _⟩,
    fun i j u v hi hj hu _ => hback i j u v hi hj hu, fun hacyclic i j u v hi hj hu hedge => ?_,
    fun u b c hb hc => ?_⟩
  · -- the keys ascend
    have hsorted := cfg.blocks.keys_sorted
    rw [hkeys] at hsorted
    rcases List.mem_cons.mp (hkeys ▸ hk : k ∈ cfg.entry :: rest) with rfl | hk
    · exact Nat.le_refl _
    · exact Nat.le_of_lt ((List.pairwise_cons.mp hsorted).1 k hk)
  · by_contra hle
    exact hacyclic u hu (.head' hedge (hback i j u v hi hj hu hedge (Nat.not_lt.mp hle)))
  · rw [horder]
    exact checkLayout_handlers hkeyed hperm hcheck hb hc

theorem build_reversePostOrder {insts : List DecodedInst} {excHandlers : List ExcHandler}
    {bytecodes : List UInt8} {cfg : Cfg} (h : Cfg.build insts excHandlers bytecodes = .ok cfg) :
    cfg.ReversePostOrder :=
  reversePostOrder_of_build h

/-- A loop in a try region, the return behind it, and the catch block. -/
def guardedLoopCode : List UInt8 := [8, 0, 1, 144, 253, 0, 92, 0, 93, 1, 92, 1]

def guardedLoopInsts : List DecodedInst :=
  [⟨0, 3, "Mov", [.reg 0, .reg 1]⟩, ⟨3, 3, "JmpTrue", [.addr (-3), .reg 0]⟩,
    ⟨6, 2, "Ret", [.reg 0]⟩, ⟨8, 2, "Catch", [.reg 1]⟩, ⟨10, 2, "Ret", [.reg 1]⟩]

theorem build_reversePostOrder_guardedLoop :
    decodeFunction v95Tables guardedLoopCode = .ok guardedLoopInsts ∧
    ∃ cfg, Cfg.build guardedLoopInsts [⟨0, 6, 8⟩] guardedLoopCode = .ok cfg ∧
      cfg.blockOrder = [0, 6, 8] ∧ cfg.ReversePostOrder := by
  obtain ⟨cfg, hbuild, horder⟩ := @Loop.exists_of_okAnd _ _
    (Cfg.build guardedLoopInsts [⟨0, 6, 8⟩] guardedLoopCode)
    (fun cfg => cfg.blockOrder = [0, 6, 8]) (by decide)
  exact ⟨by decide +kernel, cfg, hbuild, of_decide_eq_true horder, build_reversePostOrder hbuild⟩

end Hermes.Decompile
