-- SUMMARY: Well-formedness of built graphs, and the one kind of branch that lists a successor twice.
import DroidsawHermes.Decompile.CfgBuilt
import DroidsawHermes.Decompile.TablesV95
import Mathlib.Data.List.Chain
import Mathlib.Data.List.Count

/-!
# Well-formed graphs

`Cfg.WellFormed` is what `Cfg::build` documents. Blocks, edges to blocks and
exception predecessors hold in every built graph; the edge lists are free of
duplicates exactly when no conditional branch jumps to the instruction behind it.
-/

open Bytes

namespace Hermes.Decompile

/-! ## Definitions -/

/-- The blocks partition the instructions of a function of `codeLen` bytes. -/
structure Cfg.Partitions (insts : List DecodedInst) (codeLen : Nat) (cfg : Cfg) : Prop where
  instructions : cfg.blocks.values.flatMap (·.instructions) = insts
  unique : ∀ inst ∈ insts, ∃! b, b ∈ cfg.blocks.values ∧ inst ∈ b.instructions
  ids : ∀ id b, cfg.blocks.get? id = some b → b.id = id ∧ b.start = id
  first : cfg.blocks.values.head?.map (·.start) = some 0
  consecutive : cfg.blocks.values.IsChain fun a b => a.stop = b.start
  last : cfg.blocks.values.getLast?.map (·.stop) = some codeLen
  inRange : ∀ b ∈ cfg.blocks.values, ∀ inst ∈ b.instructions,
    b.start ≤ inst.offset ∧ inst.stop ≤ b.stop

/-- Successors and predecessors are block ids, and list the same edges once. -/
structure Cfg.EdgesMirror (cfg : Cfg) : Prop where
  successors : ∀ b ∈ cfg.blocks.values, ∀ s ∈ b.successors, s ∈ cfg.blocks.keys
  predecessors : ∀ b ∈ cfg.blocks.values, ∀ p ∈ b.predecessors, p ∈ cfg.blocks.keys
  mirror : ∀ a ∈ cfg.blocks.values, ∀ b ∈ cfg.blocks.values,
    a.successors.count b.id = b.predecessors.count a.id
  once : ∀ b ∈ cfg.blocks.values, b.successors.Nodup

/-- The blocks that `c` catches for. -/
def Cfg.caughtBy (cfg : Cfg) (c : BlockId) : List BlockId :=
  (cfg.blocks.values.filter (·.excHandler = some c)).map (·.id)

/-- `exc_predecessors` lists, for each catch block, the blocks it catches for. -/
def Cfg.ExcInverse (cfg : Cfg) : Prop :=
  ∀ c, cfg.excPredecessors.get? c = if cfg.caughtBy c = [] then none else some (cfg.caughtBy c)

structure Cfg.WellFormed (insts : List DecodedInst) (codeLen : Nat) (cfg : Cfg) : Prop where
  partitions : cfg.Partitions insts codeLen
  edges : cfg.EdgesMirror
  exceptions : cfg.ExcInverse

/-- No conditional branch jumps to the instruction behind it. -/
def NoBranchToNext (insts : List DecodedInst) : Prop :=
  ∀ inst ∈ insts, inst.isConditionalBranch → inst.branchTarget = instNextOffset inst →
    ∀ next ∈ insts, instNextOffset inst ≠ some next.offset

instance (insts : List DecodedInst) : Decidable (NoBranchToNext insts) :=
  inferInstanceAs (Decidable (∀ inst ∈ insts, inst.isConditionalBranch →
    inst.branchTarget = instNextOffset inst →
    ∀ next ∈ insts, instNextOffset inst ≠ some next.offset))

/-! ## Exception predecessors -/

theorem get?_addExcPredecessor (m : OrdMap BlockId (List BlockId)) (b : BasicBlock)
    (c : BlockId) : (addExcPredecessor m b).get? c =
      if b.excHandler = some c then some ((m.get? c).getD [] ++ [b.id]) else m.get? c := by
  unfold addExcPredecessor
  cases b.excHandler with
  | none => rfl
  | some catchTarget =>
    simp only [OrdMap.get?_insert, Option.some.injEq]
    split
    · next h => simp [h]
    · next h => simp [Ne.symm h]

theorem foldl_addExcPredecessor (blocks : List BasicBlock) (m : OrdMap BlockId (List BlockId))
    (c : BlockId) : (blocks.foldl addExcPredecessor m).get? c =
      let caught := (blocks.filter (·.excHandler = some c)).map (·.id)
      if caught = [] then m.get? c else some ((m.get? c).getD [] ++ caught) := by
  induction blocks generalizing m with
  | nil => rfl
  | cons b blocks ih =>
    rw [List.foldl_cons, ih, get?_addExcPredecessor]
    by_cases hcatch : b.excHandler = some c
    · simp only [hcatch, if_true, Option.getD_some, decide_true, List.filter_cons_of_pos,
        List.map_cons, reduceCtorEq, if_false, List.append_assoc, List.singleton_append]
      split
      · next hnil => rw [hnil]
      · rfl
    · simp [hcatch]

theorem excInverse_of_eq {cfg : Cfg} (h : cfg.excPredecessors = excPredecessorsOf cfg.blocks) :
    cfg.ExcInverse := by
  intro c
  rw [h, excPredecessorsOf, foldl_addExcPredecessor]
  rfl

/-! ## Edges -/

theorem count_predecessors (edges : List (BlockId × BlockId)) (s t : BlockId) :
    ((edges.filter (·.2 = t)).map Prod.fst).count s = edges.count (s, t) := by
  induction edges with
  | nil => rfl
  | cons edge edges ih =>
    obtain ⟨a, b⟩ := edge
    by_cases hb : b = t
    · subst hb
      simp only [decide_true, List.filter_cons_of_pos, List.map_cons, List.count_cons, ih,
        beq_iff_eq, Prod.mk.injEq, and_true]
    · simp [hb, ih]

/-- Edges out of an element are its successors, as no other element has its id. -/
theorem count_edges {α : Type} {id : α → BlockId} {succs : α → List BlockId} {l : List α}
    (hnodup : (l.map id).Nodup) {a : α} (ha : a ∈ l) (t : BlockId) :
    (l.flatMap fun x => (succs x).map fun s => (id x, s)).count (id a, t) = (succs a).count t := by
  have hown : ∀ x, ((succs x).map fun s => (id x, s)).count (id a, t) =
      if id x = id a then (succs x).count t else 0 := by
    intro x
    split
    · next heq =>
      rw [heq]
      have hinj : Function.Injective fun s : BlockId => (id a, s) := fun _ _ h => (Prod.mk.inj h).2
      exact List.count_map_of_injective _ _ hinj t
    · next hne =>
      rw [List.count_eq_zero]
      intro hmem
      obtain ⟨s, -, heq⟩ := List.mem_map.mp hmem
      exact hne (congrArg Prod.fst heq)
  induction l with
  | nil => cases ha
  | cons x l ih =>
    obtain ⟨hnew, hnodup⟩ := List.nodup_cons.mp hnodup
    rw [List.flatMap_cons, List.count_append, hown]
    rcases List.mem_cons.mp ha with rfl | ha
    · have hrest : (l.flatMap fun y => (succs y).map fun s => (id y, s)).count (id a, t) = 0 := by
        rw [List.count_eq_zero]
        intro hmem
        obtain ⟨y, hy, hys⟩ := List.mem_flatMap.mp hmem
        obtain ⟨s, -, heq⟩ := List.mem_map.mp hys
        have hid : id y = id a := congrArg Prod.fst heq
        exact hnew (hid ▸ List.mem_map_of_mem hy)
      rw [if_pos rfl, hrest, Nat.add_zero]
    · have hne : id x ≠ id a := fun heq => hnew (heq ▸ List.mem_map_of_mem ha)
      rw [if_neg hne, Nat.zero_add, ih hnodup ha]

theorem mem_knownTarget {ids : List BlockId} {target : Option Nat} {s : BlockId} :
    s ∈ knownTarget ids target ↔ target = some s ∧ s ∈ ids := by
  simp [knownTarget]

theorem knownTarget_nodup (ids : List BlockId) (target : Option Nat) :
    (knownTarget ids target).Nodup := by
  apply List.Nodup.filter
  cases target <;> simp

theorem foldl_pushCase {ids cases succs : List BlockId} (hnodup : succs.Nodup)
    (hsub : ∀ s ∈ succs, s ∈ ids) :
    (cases.foldl (pushCase ids) succs).Nodup ∧ ∀ s ∈ cases.foldl (pushCase ids) succs, s ∈ ids := by
  induction cases generalizing succs with
  | nil => exact ⟨hnodup, hsub⟩
  | cons target cases ih =>
    rw [List.foldl_cons, pushCase]
    split
    · next hnew =>
      apply ih
      · exact List.nodup_append.mpr ⟨hnodup, List.nodup_singleton _, by
          intro s hs t ht
          rw [List.mem_singleton.mp ht]
          exact fun heq => hnew.2 (heq ▸ hs)⟩
      · intro s hs
        rcases List.mem_append.mp hs with hs | hs
        · exact hsub s hs
        · rw [List.mem_singleton.mp hs]
          exact hnew.1
    · exact ih hnodup hsub

theorem mem_of_mem_successorsOf {bytecodes : List UInt8} {ids : List BlockId}
    {nextBlock : Option BlockId} {last : DecodedInst} (hnext : ∀ s ∈ nextBlock, s ∈ ids)
    {s : BlockId} (hs : s ∈ successorsOf bytecodes ids nextBlock last) : s ∈ ids := by
  simp only [successorsOf] at hs
  split at hs
  · exact (mem_knownTarget.mp hs).2
  · split at hs
    · rcases List.mem_append.mp hs with hs | hs <;> exact (mem_knownTarget.mp hs).2
    · split at hs
      · exact (foldl_pushCase (knownTarget_nodup _ _) fun t ht => (mem_knownTarget.mp ht).2).2 s hs
      · split at hs
        · cases hs
        · exact hnext s (Option.mem_toList.mp hs)

/-- Only a conditional branch to the block behind it lists a successor twice. -/
theorem successorsOf_nodup_iff {bytecodes : List UInt8} {ids : List BlockId}
    {nextBlock : Option BlockId} {last : DecodedInst} :
    (successorsOf bytecodes ids nextBlock last).Nodup ↔
      (last.isConditionalBranch → last.branchTarget = instNextOffset last →
        ∀ next ∈ ids, instNextOffset last ≠ some next) := by
  simp only [successorsOf]
  split
  · next hjump =>
    have hnot : last.isConditionalBranch = false := by
      simp only [DecodedInst.isUnconditionalJump, Bool.or_eq_true, decide_eq_true_eq] at hjump
      rcases hjump with hname | hname <;> simp [DecodedInst.isConditionalBranch, hname]
    simp [hnot, knownTarget_nodup]
  · split
    · next hbranch =>
      rw [List.nodup_append]
      simp only [knownTarget_nodup, true_and, mem_knownTarget, hbranch, true_implies]
      constructor
      · intro hne heq next hnext hfall
        exact hne next ⟨heq.trans hfall, hnext⟩ next ⟨hfall, hnext⟩ rfl
      · rintro hne s ⟨hs, hsid⟩ t ⟨ht, -⟩ rfl
        exact hne (hs.trans ht.symm) s hsid ht
    · next hbranch =>
      refine ⟨fun _ h => absurd h hbranch, fun _ => ?_⟩
      split
      · exact (foldl_pushCase (knownTarget_nodup _ _) fun t ht => (mem_knownTarget.mp ht).2).1
      · split
        · exact List.nodup_nil
        · cases nextBlock <;> simp

/-! ## Built graphs -/

section Built

variable {insts : List DecodedInst} {excHandlers : List ExcHandler} {bytecodes : List UInt8}
  {boundaries : OrdSet Nat} {cfg : Cfg} {hi : Nat}

theorem Built.keys (h : Built insts excHandlers bytecodes boundaries cfg) :
    cfg.blocks.keys = (parts boundaries insts).map startOf := by
  simp [OrdMap.keys, h.blocks, Function.comp_def]

theorem Built.values (h : Built insts excHandlers bytecodes boundaries cfg) :
    cfg.blocks.values = (parts boundaries insts).map
      (builtBlock excHandlers bytecodes (parts boundaries insts)) := by
  simp [OrdMap.values, h.blocks, Function.comp_def]

theorem parts_inRange (htiles : InstTiles 0 hi insts) {part : List DecodedInst}
    (hpart : part ∈ parts boundaries insts) {inst : DecodedInst} (hinst : inst ∈ part) :
    startOf part ≤ inst.offset ∧ inst.stop ≤ stopOf part := by
  have hne := parts_ne_nil hpart
  rw [← parts_flatten boundaries insts] at htiles
  have hrange := Segments.tiles_part htiles hpart hinst hne
  rw [startOf, List.head?_eq_some_head hne, stopOf, List.getLast?_eq_some_getLast hne]
  exact hrange

theorem parts_unique (htiles : InstTiles 0 hi insts) {part other : List DecodedInst}
    (hpart : part ∈ parts boundaries insts) (hother : other ∈ parts boundaries insts)
    {inst : DecodedInst} (hinst : inst ∈ part) (hinst' : inst ∈ other) : part = other := by
  have hnodup : insts.Nodup := by
    refine htiles.starts_sorted.imp fun hlt heq => ?_
    rw [heq] at hlt
    exact Nat.lt_irrefl _ hlt
  rw [← parts_flatten boundaries insts, List.nodup_flatten] at hnodup
  by_contra hne
  have : Std.Symm (@List.Disjoint DecodedInst) := ⟨fun _ _ h _ hb ha => h ha hb⟩
  exact hnodup.2.forall hpart hother hne hinst hinst'

theorem Built.partitions (h : Built insts excHandlers bytecodes boundaries cfg) (hne : insts ≠ [])
    (htiles : InstTiles 0 hi insts) : cfg.Partitions insts hi := by
  have hps := parts_tiles boundaries htiles
  have hpsNe := parts_ne boundaries hne
  constructor
  · rw [h.values, List.flatMap_map]
    exact List.flatMap_id.trans (parts_flatten boundaries insts)
  · intro inst hinst
    rw [← parts_flatten boundaries insts] at hinst
    obtain ⟨part, hpart, hmem⟩ := List.mem_flatten.mp hinst
    rw [h.values]
    refine ⟨_, ⟨List.mem_map_of_mem hpart, hmem⟩, ?_⟩
    rintro b ⟨hb, hmem'⟩
    obtain ⟨other, hother, rfl⟩ := List.mem_map.mp hb
    rw [parts_unique htiles hpart hother hmem hmem']
  · intro id b hget
    have hmem := OrdMap.get?_eq_some_iff.mp hget
    rw [h.blocks] at hmem
    obtain ⟨part, -, heq⟩ := List.mem_map.mp hmem
    cases heq
    exact ⟨rfl, rfl⟩
  · rw [h.values, List.head?_map, List.head?_eq_some_head hpsNe]
    exact congrArg some (hps.start_head hpsNe)
  · rw [h.values, List.isChain_map]
    exact hps.chain
  · rw [h.values, List.getLast?_map, List.getLast?_eq_some_getLast hpsNe]
    exact congrArg some (hps.stop_getLast hpsNe)
  · intro b hb inst hinst
    rw [h.values] at hb
    obtain ⟨part, hpart, rfl⟩ := List.mem_map.mp hb
    exact parts_inRange htiles hpart hinst

theorem starts_nodup (boundaries : OrdSet Nat) (htiles : InstTiles 0 hi insts) :
    ((parts boundaries insts).map startOf).Nodup :=
  List.pairwise_map.mpr
    ((parts_tiles boundaries htiles).starts_sorted.imp fun hlt => Nat.ne_of_lt hlt)

/-- The block of a part lists a successor twice exactly for a conditional branch to
the block behind it. -/
theorem partSuccessors_nodup_iff {part : List DecodedInst} {last : DecodedInst}
    (hlast : part.getLast? = some last) {ids : List BlockId} :
    (partSuccessors bytecodes ids part).Nodup ↔
      (last.isConditionalBranch → last.branchTarget = instNextOffset last →
        ∀ next ∈ ids, instNextOffset last ≠ some next) := by
  rw [partSuccessors, hlast]
  exact successorsOf_nodup_iff

/-- A terminator with an instruction behind it ends its part. -/
theorem getLast?_of_terminator (hboundary : ∀ inst ∈ insts, inst.isTerminator →
      inst.stop ∈ boundaries.keys) (htiles : InstTiles 0 hi insts) {part : List DecodedInst}
    (hpart : part ∈ parts boundaries insts) {inst : DecodedInst} (hinst : inst ∈ part)
    (hterm : inst.isTerminator) : part.getLast? = some inst := by
  have hmem := mem_of_mem_parts hpart hinst
  have hmark := hboundary inst hmem hterm
  obtain ⟨before, after, rfl⟩ := List.mem_iff_append.mp hinst
  cases after with
  | nil => simp
  | cons next after =>
    -- the part would go on over a boundary
    have hnext : inst.stop = next.offset := by
      rw [← parts_flatten boundaries insts] at htiles
      obtain ⟨_, _, hflat⟩ := List.mem_iff_append.mp hpart
      have hchain := htiles.chain
      rw [hflat] at hchain
      simp only [List.flatten_append, List.flatten_cons] at hchain
      have hmid := (List.isChain_append.mp (List.isChain_append.mp hchain).2.1).1
      exact (List.isChain_cons_cons.mp (List.isChain_append.mp hmid).2.1).1
    refine absurd (hnext ▸ hmark) (parts_tail hpart next ?_)
    cases before <;> simp

theorem partSuccessors_known {part : List DecodedInst} {ids : List BlockId} {s : BlockId}
    (hs : s ∈ partSuccessors bytecodes ids part) : s ∈ ids := by
  rw [partSuccessors] at hs
  split at hs
  · cases hs
  · refine mem_of_mem_successorsOf (fun t ht => ?_) hs
    exact (mem_knownTarget.mp (List.mem_of_head? ht)).2

theorem Built.successors_known (h : Built insts excHandlers bytecodes boundaries cfg) :
    ∀ b ∈ cfg.blocks.values, ∀ s ∈ b.successors, s ∈ cfg.blocks.keys := by
  rw [h.values, h.keys]
  rintro b hb s hs
  obtain ⟨part, -, rfl⟩ := List.mem_map.mp hb
  exact partSuccessors_known hs

theorem Built.predecessors_known (h : Built insts excHandlers bytecodes boundaries cfg) :
    ∀ b ∈ cfg.blocks.values, ∀ p ∈ b.predecessors, p ∈ cfg.blocks.keys := by
  rw [h.values, h.keys]
  rintro b hb p hp
  obtain ⟨part, -, rfl⟩ := List.mem_map.mp hb
  obtain ⟨edge, hedge, rfl⟩ := List.mem_map.mp hp
  obtain ⟨source, hsource, hout⟩ := List.mem_flatMap.mp (List.mem_of_mem_filter hedge)
  obtain ⟨s, -, rfl⟩ := List.mem_map.mp hout
  exact List.mem_map_of_mem hsource

theorem Built.mirror (h : Built insts excHandlers bytecodes boundaries cfg)
    (htiles : InstTiles 0 hi insts) : ∀ a ∈ cfg.blocks.values, ∀ b ∈ cfg.blocks.values,
      a.successors.count b.id = b.predecessors.count a.id := by
  rw [h.values]
  rintro a ha b hb
  obtain ⟨source, hsource, rfl⟩ := List.mem_map.mp ha
  obtain ⟨target, -, rfl⟩ := List.mem_map.mp hb
  simp only [builtBlock]
  rw [count_predecessors]
  exact (count_edges (starts_nodup boundaries htiles) hsource _).symm

theorem Built.once_iff (h : Built insts excHandlers bytecodes boundaries cfg)
    (htiles : InstTiles 0 hi insts) :
    (∀ b ∈ cfg.blocks.values, b.successors.Nodup) ↔ NoBranchToNext insts := by
  have hzero : 0 ∈ boundaries.keys := (h.boundary 0).mpr (Or.inl rfl)
  have hterm : ∀ inst ∈ insts, inst.isTerminator → inst.stop ∈ boundaries.keys := by
    intro inst hinst hterm
    refine (h.boundary _).mpr (Or.inr (Or.inl ⟨inst, hinst, ?_⟩))
    simp [instBoundaries, hterm]
  have hbranch : ∀ inst : DecodedInst, inst.isConditionalBranch → inst.isTerminator := by
    intro inst hcond
    simp only [DecodedInst.isConditionalBranch, Bool.and_eq_true] at hcond
    simp [DecodedInst.isTerminator, DecodedInst.isJump, of_decide_eq_true hcond.1.1]
  have hnext : ∀ inst ∈ insts, instNextOffset inst = some inst.stop := fun inst hinst =>
    instNextOffset_eq_some.mpr ⟨h.fits inst hinst, rfl⟩
  rw [h.values, List.forall_mem_map]
  constructor
  · intro honce inst hinst hcond heq next hnextMem hfall
    rw [← parts_flatten boundaries insts] at hinst
    obtain ⟨part, hpart, hmem⟩ := List.mem_flatten.mp hinst
    rw [parts_flatten boundaries insts] at hinst
    have hlast := getLast?_of_terminator hterm htiles hpart hmem (hbranch inst hcond)
    refine (partSuccessors_nodup_iff hlast).mp (honce part hpart) hcond heq next.offset ?_ hfall
    have hstop : next.offset = inst.stop := Option.some.inj (hfall.symm.trans (hnext inst hinst))
    refine (mem_starts htiles hzero).mpr ⟨⟨next, hnextMem, rfl⟩, ?_⟩
    rw [hstop]
    exact hterm inst hinst (hbranch inst hcond)
  · intro hno part hpart
    obtain ⟨last, hlast, hmem⟩ := exists_getLast hpart
    refine (partSuccessors_nodup_iff hlast).mpr fun hcond heq next hknown hfall => ?_
    obtain ⟨⟨inst, hinst, rfl⟩, -⟩ := (mem_starts htiles hzero).mp hknown
    exact hno last hmem hcond heq inst hinst hfall

end Built

/-! ## build -/

/-- The graph of no instructions. -/
theorem wellFormed_nil {excHandlers : List ExcHandler} {bytecodes : List UInt8} {cfg : Cfg}
    (h : Cfg.build [] excHandlers bytecodes = .ok cfg) : cfg.WellFormed [] 0 := by
  rw [Cfg.build, if_pos rfl] at h
  cases h
  have hvalues : (OrdMap.empty.insert 0 (BasicBlock.new 0 0 []) : BlockMap).values =
    [.new 0 0 []] := rfl
  refine ⟨⟨rfl, by simp, ?_, rfl, .singleton _, rfl, ?_⟩, ⟨?_, ?_, ?_, ?_⟩, fun _ => rfl⟩
  · intro id b hget
    have hmem := OrdMap.get?_eq_some_iff.mp hget
    cases List.mem_singleton.mp hmem
    exact ⟨rfl, rfl⟩
  all_goals
    simp only [hvalues, List.forall_mem_singleton]
    simp [BasicBlock.new]

/-- A built graph is well formed exactly when no conditional branch jumps to the
instruction behind it. -/
theorem build_wellFormed_iff {t : OpcodeTables} {code bytecodes : List UInt8}
    {insts : List DecodedInst} {excHandlers : List ExcHandler} {cfg : Cfg}
    (hdecode : decodeFunction t code = .ok insts)
    (hbuild : Cfg.build insts excHandlers bytecodes = .ok cfg) :
    cfg.WellFormed insts code.length ↔ NoBranchToNext insts := by
  have hfrom := decodeFunction_spec hdecode
  by_cases hne : insts = []
  · subst hne
    have hlen : code.length = 0 := by
      generalize hpos : 0 = pos at hfrom
      cases hfrom
      rfl
    rw [hlen]
    exact iff_of_true (wellFormed_nil hbuild) fun inst hinst => absurd hinst List.not_mem_nil
  · have htiles := fun hfits => hfrom.tiles hfits (Nat.zero_le _)
    obtain ⟨boundaries, hbuilt⟩ := build_built hne htiles hbuild
    have htiles := htiles hbuilt.fits
    rw [← hbuilt.once_iff htiles]
    constructor
    · exact fun hwf => hwf.edges.once
    · intro honce
      exact ⟨hbuilt.partitions hne htiles,
        ⟨hbuilt.successors_known, hbuilt.predecessors_known, hbuilt.mirror htiles, honce⟩,
        excInverse_of_eq hbuilt.excPredecessors⟩

/-- `JmpTrue` over a `Ret`. -/
def skipCode : List UInt8 := [144, 5, 0, 92, 0, 92, 1]

theorem build_wellFormed_iff_skip : ∃ insts cfg, decodeFunction v95Tables skipCode = .ok insts ∧
    Cfg.build insts [] skipCode = .ok cfg ∧ cfg.WellFormed insts skipCode.length := by
  obtain ⟨insts, hdecode, hno⟩ := @Loop.exists_of_okAnd _ _ (decodeFunction v95Tables skipCode)
    (fun insts => NoBranchToNext insts ∧ (Cfg.build insts [] skipCode).isOk) (by decide)
  obtain ⟨hno, hok⟩ := of_decide_eq_true hno
  cases hbuild : Cfg.build insts [] skipCode with
  | error e =>
    rw [hbuild] at hok
    cases hok
  | ok cfg => exact ⟨insts, cfg, hdecode, hbuild, (build_wellFormed_iff hdecode hbuild).mpr hno⟩

/-- `JmpTrue` to the `Ret` behind it. -/
def nextBranchCode : List UInt8 := [144, 3, 0, 92, 0]

def nextBranchInsts : List DecodedInst :=
  [⟨0, 3, "JmpTrue", [.addr 3, .reg 0]⟩, ⟨3, 2, "Ret", [.reg 0]⟩]

theorem nextBranch_not_wellFormed :
    decodeFunction v95Tables nextBranchCode = .ok nextBranchInsts ∧
      ∃ cfg, Cfg.build nextBranchInsts [] nextBranchCode = .ok cfg ∧
        ¬cfg.WellFormed nextBranchInsts nextBranchCode.length := by
  obtain ⟨cfg, hbuild, htwice⟩ := @Loop.exists_of_okAnd _ _
    (Cfg.build nextBranchInsts [] nextBranchCode)
    (fun cfg => ¬∀ b ∈ cfg.blocks.values, b.successors.Nodup) (by decide)
  refine ⟨by decide +kernel, cfg, hbuild, fun hwf => ?_⟩
  exact of_decide_eq_true htwice hwf.edges.once

end Hermes.Decompile
