-- SUMMARY: Which handler a block of a built graph gets: the last listed of those whose range contains it, and what that means for nested try regions.
import DroidsawHermes.Decompile.CfgWellFormed

/-!
# Handlers of nested try regions

Step 4 applies the handlers in table order, and a later one overwrites an earlier
one. A block inside nested ranges gets the innermost handler where the table lists
outer ranges first. The order does not matter to the blocks whose ranges agree on
the target.
-/

namespace Hermes.Decompile

/-! ## Ranges -/

namespace ExcHandler

/-- The range lies inside the other. -/
def Within (eh other : ExcHandler) : Prop := other.start ≤ eh.start ∧ eh.stop ≤ other.stop

/-- The range contains the block, which has code. -/
def Covers (eh : ExcHandler) (b : BasicBlock) : Prop :=
  b.start < b.stop ∧ eh.start ≤ b.start ∧ b.stop ≤ eh.stop

def Apart (eh other : ExcHandler) : Prop := eh.stop ≤ other.start ∨ other.stop ≤ eh.start

instance (eh other : ExcHandler) : Decidable (eh.Within other) := inferInstanceAs (Decidable (_ ∧ _))

instance (eh : ExcHandler) (b : BasicBlock) : Decidable (eh.Covers b) :=
  inferInstanceAs (Decidable (_ ∧ _))

instance (eh other : ExcHandler) : Decidable (eh.Apart other) := inferInstanceAs (Decidable (_ ∨ _))

end ExcHandler

/-- Any two ranges are disjoint, or one lies properly inside the other. -/
def NestedRanges (excHandlers : List ExcHandler) : Prop :=
  excHandlers.Pairwise fun eh other => eh.Apart other ∨
    ¬ (eh.Within other ∧ other.Within eh) ∧ (eh.Within other ∨ other.Within eh)

/-- No range is listed before one that it lies in. -/
def OuterFirst (excHandlers : List ExcHandler) : Prop :=
  excHandlers.Pairwise fun eh other => ¬ eh.Within other

instance (excHandlers : List ExcHandler) : Decidable (NestedRanges excHandlers) :=
  inferInstanceAs (Decidable (List.Pairwise _ _))

instance (excHandlers : List ExcHandler) : Decidable (OuterFirst excHandlers) :=
  inferInstanceAs (Decidable (List.Pairwise _ _))

/-- The smallest range that contains the block. -/
structure Innermost (excHandlers : List ExcHandler) (b : BasicBlock) (eh : ExcHandler) : Prop where
  mem : eh ∈ excHandlers
  covers : eh.Covers b
  within : ∀ other ∈ excHandlers, other.Covers b → eh.Within other

/-- The last listed range that contains the block. -/
def LastListed (excHandlers : List ExcHandler) (b : BasicBlock) (eh : ExcHandler) : Prop :=
  ∃ before after, excHandlers = before ++ eh :: after ∧ eh.Covers b ∧
    ∀ other ∈ after, ¬ other.Covers b

/-- The ranges that contain the block have one target. -/
def TargetsAgree (excHandlers : List ExcHandler) (b : BasicBlock) : Prop :=
  ∀ eh ∈ excHandlers, ∀ other ∈ excHandlers, eh.Covers b → other.Covers b →
    eh.target = other.target

/-- With outer ranges listed first, the last listed range is the innermost. -/
theorem LastListed.innermost {excHandlers : List ExcHandler} {b : BasicBlock} {eh : ExcHandler}
    (h : LastListed excHandlers b eh) (hnest : NestedRanges excHandlers)
    (houter : OuterFirst excHandlers) : Innermost excHandlers b eh := by
  obtain ⟨before, after, rfl, hcovers, hafter⟩ := h
  refine ⟨by simp, hcovers, fun other hother hcovers' => ?_⟩
  rcases List.mem_append.mp hother with hbefore | hrest
  · have hpair := (List.pairwise_append.mp hnest).2.2 other hbefore eh List.mem_cons_self
    have hnot := (List.pairwise_append.mp houter).2.2 other hbefore eh List.mem_cons_self
    rcases hpair with hapart | ⟨-, hwithin⟩
    · simp only [ExcHandler.Apart, ExcHandler.Covers] at hapart hcovers hcovers'
      omega
    · exact hwithin.resolve_left hnot
  · rcases List.mem_cons.mp hrest with rfl | hmem
    · exact ⟨Nat.le_refl _, Nat.le_refl _⟩
    · exact absurd hcovers' (hafter other hmem)

/-! ## The overwriting loop -/

section LastHandler

variable {excHandlers excHandlers' : List ExcHandler} {b : BasicBlock} {init : Option BlockId}

theorem lastHandler_append (eh : ExcHandler) (hlt : b.start < b.stop) :
    lastHandler (excHandlers ++ [eh]) b.start b.stop init =
      if eh.Covers b then some eh.target else lastHandler excHandlers b.start b.stop init := by
  simp only [lastHandler, List.foldl_append, List.foldl_cons, List.foldl_nil, ExcHandler.Covers,
    hlt, true_and, ge_iff_le]

/-- The overwriting loop leaves the last listed handler, or what was there. -/
theorem lastHandler_spec (excHandlers : List ExcHandler) (init : Option BlockId)
    (hlt : b.start < b.stop) :
    (∃ eh, LastListed excHandlers b eh ∧
      lastHandler excHandlers b.start b.stop init = some eh.target) ∨
    (∀ eh ∈ excHandlers, ¬ eh.Covers b) ∧ lastHandler excHandlers b.start b.stop init = init := by
  induction excHandlers using List.reverseRecOn with
  | nil => exact Or.inr ⟨by simp, rfl⟩
  | append_singleton excHandlers eh ih =>
    rw [lastHandler_append eh hlt]
    by_cases hcovers : eh.Covers b
    · rw [if_pos hcovers]
      exact Or.inl ⟨eh, ⟨excHandlers, [], rfl, hcovers, by simp⟩, rfl⟩
    · rw [if_neg hcovers]
      rcases ih with ⟨last, ⟨before, after, rfl, hlast, hafter⟩, heq⟩ | ⟨hnone, heq⟩
      · refine Or.inl ⟨last, ⟨before, after ++ [eh], by simp, hlast, fun other hother => ?_⟩, heq⟩
        rcases List.mem_append.mp hother with hother | hother
        · exact hafter other hother
        · rw [List.mem_singleton.mp hother]
          exact hcovers
      · refine Or.inr ⟨fun other hother => ?_, heq⟩
        rcases List.mem_append.mp hother with hother | hother
        · exact hnone other hother
        · rw [List.mem_singleton.mp hother]
          exact hcovers

theorem LastListed.mem {eh : ExcHandler} (h : LastListed excHandlers b eh) : eh ∈ excHandlers := by
  obtain ⟨before, after, rfl, -, -⟩ := h
  simp

theorem LastListed.covers {eh : ExcHandler} (h : LastListed excHandlers b eh) : eh.Covers b := by
  obtain ⟨before, after, -, hcovers, -⟩ := h
  exact hcovers

/-- Where the targets agree, the order of the table does not matter. -/
theorem lastHandler_perm (hperm : excHandlers'.Perm excHandlers)
    (hagree : TargetsAgree excHandlers b) (hlt : b.start < b.stop) :
    lastHandler excHandlers' b.start b.stop init = lastHandler excHandlers b.start b.stop init := by
  rcases lastHandler_spec excHandlers init hlt with ⟨eh, hlast, heq⟩ | ⟨hnone, heq⟩
  · rcases lastHandler_spec excHandlers' init hlt with ⟨eh', hlast', heq'⟩ | ⟨hnone', heq'⟩
    · rw [heq, heq', hagree eh' (hperm.mem_iff.mp hlast'.mem) eh hlast.mem hlast'.covers
        hlast.covers]
    · exact absurd hlast.covers (hnone' eh (hperm.mem_iff.mpr hlast.mem))
  · rcases lastHandler_spec excHandlers' init hlt with ⟨eh', hlast', heq'⟩ | ⟨hnone', heq'⟩
    · exact absurd hlast'.covers (hnone eh' (hperm.mem_iff.mp hlast'.mem))
    · rw [heq, heq']

/-- A handler that covers the block can be listed last. -/
theorem lastHandler_moved {eh : ExcHandler} (hcovers : eh.Covers b) :
    lastHandler (excHandlers.erase eh ++ [eh]) b.start b.stop init = some eh.target := by
  rw [lastHandler_append eh hcovers.1, if_pos hcovers]

end LastHandler

/-! ## build -/

theorem findBoundaries_perm {insts : List DecodedInst} {excHandlers excHandlers' : List ExcHandler}
    {bytecodes : List UInt8} (hperm : excHandlers'.Perm excHandlers) :
    findBoundaries insts excHandlers' bytecodes = findBoundaries insts excHandlers bytecodes := by
  simp only [findBoundaries]
  congr 1
  funext boundaries
  congr 1
  refine OrdSet.ext_keys fun p => ?_
  rw [OrdSet.mem_foldl_insert, OrdSet.mem_foldl_insert, (hperm.flatMap_right _).mem_iff]

/-- What the loop makes of a block. -/
def handled (excHandlers : List ExcHandler) (b : BasicBlock) : BasicBlock :=
  { b with excHandler := lastHandler excHandlers b.start b.stop b.excHandler }

theorem foldlM_markHandler_iff {excHandlers : List ExcHandler} {blocks blocks' : BlockMap} :
    excHandlers.foldlM markHandler blocks = .ok blocks' ↔
      (∀ eh ∈ excHandlers, eh.target ∈ blocks.keys) ∧
        blocks' = blocks.mapVal fun _ => handled excHandlers := by
  refine ⟨foldlM_markHandler, ?_⟩
  rintro ⟨htargets, rfl⟩
  have hok : ∃ marked, excHandlers.foldlM markHandler blocks = .ok marked := by
    induction excHandlers generalizing blocks with
    | nil => exact ⟨blocks, rfl⟩
    | cons eh rest ih =>
      obtain ⟨htarget, hrest⟩ := List.forall_mem_cons.mp htargets
      simp only [List.foldlM_cons, markHandler, htarget, if_true, Loop.ok_bind]
      exact ih (by simpa using hrest)
  obtain ⟨marked, hmarked⟩ := hok
  rw [hmarked, (foldlM_markHandler hmarked).2]
  rfl

section Built

variable {insts : List DecodedInst} {excHandlers excHandlers' : List ExcHandler}
  {bytecodes : List UInt8} {cfg : Cfg}

/-- A built graph is empty, or every block has code and the handler that the loop
leaves. -/
theorem build_excHandler {t : OpcodeTables} {code : List UInt8}
    (hdecode : decodeFunction t code = .ok insts)
    (h : Cfg.build insts excHandlers bytecodes = .ok cfg) (hne : insts ≠ []) :
    ∀ b ∈ cfg.blocks.values, b.start < b.stop ∧
      b.excHandler = lastHandler excHandlers b.start b.stop none := by
  have htiles := fun hfits => (decodeFunction_spec hdecode).tiles hfits (Nat.zero_le _)
  obtain ⟨boundaries, hbuilt⟩ := build_built hne htiles h
  intro b hb
  rw [hbuilt.values] at hb
  obtain ⟨part, hpart, rfl⟩ := List.mem_map.mp hb
  exact ⟨((parts_tiles boundaries (htiles hbuilt.fits)).bounds hpart).2.1, rfl⟩

/-- A permuted table gives the same graph, where the targets agree on every block. -/
theorem build_perm {t : OpcodeTables} {code : List UInt8}
    (hdecode : decodeFunction t code = .ok insts)
    (h : Cfg.build insts excHandlers bytecodes = .ok cfg) (hperm : excHandlers'.Perm excHandlers)
    (hagree : ∀ b ∈ cfg.blocks.values, TargetsAgree excHandlers b) :
    Cfg.build insts excHandlers' bytecodes = .ok cfg := by
  by_cases hne : insts = []
  · rw [Cfg.build, if_pos hne] at h ⊢
    exact h
  have hcode := build_excHandler hdecode h hne
  rw [Cfg.build, if_neg hne] at h ⊢
  obtain ⟨boundaries, hboundaries, h⟩ := Loop.bind_eq_ok.mp h
  obtain ⟨split, hsplit, h⟩ := Loop.bind_eq_ok.mp h
  obtain ⟨marked, hmarked, h⟩ := Loop.bind_eq_ok.mp h
  obtain ⟨_, hlayout, h⟩ := Loop.bind_eq_ok.mp h
  cases h
  have hmarked' : excHandlers'.foldlM markHandler (addPredecessors (addSuccessors bytecodes split))
      = .ok marked := by
    obtain ⟨htargets, hblocks⟩ := foldlM_markHandler_iff.mp hmarked
    refine foldlM_markHandler_iff.mpr ⟨fun eh heh => htargets eh (hperm.mem_iff.mp heh), ?_⟩
    subst hblocks
    apply OrdMap.ext
    rw [OrdMap.toList_mapVal, OrdMap.toList_mapVal]
    refine List.map_congr_left fun x hx => ?_
    have hmem : handled excHandlers x.2 ∈ (OrdMap.mapVal (fun _ => handled excHandlers)
        (addPredecessors (addSuccessors bytecodes split))).values := by
      rw [OrdMap.values, OrdMap.toList_mapVal, List.map_map]
      exact List.mem_map_of_mem (f := fun x => handled excHandlers x.2) hx
    have hagree : TargetsAgree excHandlers x.2 := hagree (handled excHandlers x.2) hmem
    rw [handled, handled, lastHandler_perm hperm hagree (hcode _ hmem).1]
  simp only [findBoundaries_perm hperm, hboundaries, hsplit, hmarked', hlayout, Loop.ok_bind]

/-- A graph that every order of the table gives. -/
theorem targetsAgree_of_perm {t : OpcodeTables} {code : List UInt8}
    (hdecode : decodeFunction t code = .ok insts) (hne : insts ≠ [])
    (h : ∀ excHandlers', excHandlers'.Perm excHandlers →
      Cfg.build insts excHandlers' bytecodes = .ok cfg) :
    ∀ b ∈ cfg.blocks.values, TargetsAgree excHandlers b := by
  intro b hb eh heh other hother hcovers hcovers'
  have hmoved : ∀ {eh : ExcHandler}, eh ∈ excHandlers → eh.Covers b →
      b.excHandler = some eh.target := by
    intro eh heh hcovers
    have hperm : (excHandlers.erase eh ++ [eh]).Perm excHandlers :=
      (List.perm_append_singleton _ _).trans (List.perm_cons_erase heh).symm
    rw [(build_excHandler hdecode (h _ hperm) hne b hb).2, lastHandler_moved hcovers]
  exact Option.some.inj ((hmoved heh hcovers).symm.trans (hmoved hother hcovers'))

end Built

/-- A covered block gets the last listed of the handlers whose range contains it.
That is the innermost where outer ranges are listed first. The order of the table
does not matter exactly where no block lies in ranges with different targets. -/
theorem build_handlers {t : OpcodeTables} {code bytecodes : List UInt8}
    {insts : List DecodedInst} {excHandlers : List ExcHandler} {cfg : Cfg}
    (hdecode : decodeFunction t code = .ok insts) (hnest : NestedRanges excHandlers)
    (hbuild : Cfg.build insts excHandlers bytecodes = .ok cfg) :
    (∀ b ∈ cfg.blocks.values, ∀ eh ∈ excHandlers, eh.Covers b →
      ∃ last, LastListed excHandlers b last ∧ b.excHandler = some last.target ∧
        (OuterFirst excHandlers → Innermost excHandlers b last)) ∧
    ((∀ excHandlers', excHandlers'.Perm excHandlers →
        Cfg.build insts excHandlers' bytecodes = .ok cfg) ↔
      ∀ b ∈ cfg.blocks.values, TargetsAgree excHandlers b) := by
  by_cases hne : insts = []
  · -- the empty block is in no range
    subst hne
    have hempty : ∀ b ∈ cfg.blocks.values, ∀ eh : ExcHandler, ¬ eh.Covers b := by
      rw [Cfg.build, if_pos rfl] at hbuild
      cases hbuild
      intro b hb eh hcovers
      cases List.mem_singleton.mp hb
      exact Nat.lt_irrefl 0 hcovers.1
    exact ⟨fun b hb eh _ hcovers => absurd hcovers (hempty b hb eh),
      fun _ b hb eh _ _ _ hcovers => absurd hcovers (hempty b hb eh), fun _ _ _ => hbuild⟩
  · have hcode := build_excHandler hdecode hbuild hne
    refine ⟨fun b hb eh heh hcovers => ?_, fun h => targetsAgree_of_perm hdecode hne h,
      fun hagree excHandlers' hperm => build_perm hdecode hbuild hperm hagree⟩
    obtain ⟨hlt, hhandler⟩ := hcode b hb
    rcases lastHandler_spec excHandlers none hlt with ⟨last, hlast, heq⟩ | ⟨hnone, -⟩
    · exact ⟨last, hlast, hhandler.trans heq, hlast.innermost hnest⟩
    · exact absurd hcovers (hnone eh heh)

/-- Two objects, the second inside two try regions, and two catch blocks. -/
def nestedTryCode : List UInt8 := [3, 0, 3, 1, 92, 0, 93, 2, 92, 2, 93, 3, 92, 3]

def nestedTryInsts : List DecodedInst :=
  [⟨0, 2, "NewObject", [.reg 0]⟩, ⟨2, 2, "NewObject", [.reg 1]⟩, ⟨4, 2, "Ret", [.reg 0]⟩,
    ⟨6, 2, "Catch", [.reg 2]⟩, ⟨8, 2, "Ret", [.reg 2]⟩, ⟨10, 2, "Catch", [.reg 3]⟩,
    ⟨12, 2, "Ret", [.reg 3]⟩]

def innerTry : ExcHandler := ⟨2, 4, 6⟩

def outerTry : ExcHandler := ⟨0, 4, 10⟩

theorem build_handlers_nested : ∃ cfg,
    Cfg.build nestedTryInsts [outerTry, innerTry] nestedTryCode = .ok cfg ∧
    ∃ b last, b ∈ cfg.blocks.values ∧ Innermost [outerTry, innerTry] b last ∧
      b.excHandler = some last.target := by
  obtain ⟨cfg, hbuild, hblock⟩ := @Loop.exists_of_okAnd _ _
    (Cfg.build nestedTryInsts [outerTry, innerTry] nestedTryCode)
    (fun cfg => ∃ b ∈ cfg.blocks.values, innerTry.Covers b) (by decide)
  obtain ⟨b, hb, hcovers⟩ := of_decide_eq_true hblock
  have hdecode : decodeFunction v95Tables nestedTryCode = .ok nestedTryInsts := by decide
  obtain ⟨hinner, -⟩ := build_handlers hdecode (by decide) hbuild
  obtain ⟨last, -, hhandler, hlast⟩ := hinner b hb innerTry (by simp) hcovers
  exact ⟨cfg, hbuild, b, last, hb, hlast (by decide), hhandler⟩

/-- With the inner range listed first, its block gets the outer handler. -/
theorem nestedTry_gets_outer :
    decodeFunction v95Tables nestedTryCode = .ok nestedTryInsts ∧
    NestedRanges [innerTry, outerTry] ∧
    ∃ cfg, Cfg.build nestedTryInsts [innerTry, outerTry] nestedTryCode = .ok cfg ∧
      (∃ b ∈ cfg.blocks.values, Innermost [innerTry, outerTry] b innerTry ∧
        b.excHandler ≠ some innerTry.target) ∧
      Cfg.build nestedTryInsts [outerTry, innerTry] nestedTryCode ≠ .ok cfg := by
  obtain ⟨cfg, hbuild, hcfg⟩ := @Loop.exists_of_okAnd _ _
    (Cfg.build nestedTryInsts [innerTry, outerTry] nestedTryCode)
    (fun cfg => (∃ b ∈ cfg.blocks.values, innerTry.Covers b ∧ b.excHandler = some outerTry.target) ∧
      Loop.okAnd (Cfg.build nestedTryInsts [outerTry, innerTry] nestedTryCode) (fun swapped =>
        swapped ≠ cfg)) (by decide)
  obtain ⟨⟨b, hb, hcovers, hhandler⟩, hswapped⟩ := of_decide_eq_true hcfg
  obtain ⟨swapped, hbuild', hne⟩ := Loop.exists_of_okAnd hswapped
  refine ⟨by decide, by decide, cfg, hbuild, ⟨b, hb, ⟨by simp, hcovers, ?_⟩, ?_⟩, ?_⟩
  · intro other hother _
    rcases List.mem_pair.mp hother with rfl | rfl <;> decide
  · rw [hhandler]
    decide
  · rw [hbuild']
    exact fun heq => of_decide_eq_true hne (Except.ok.inj heq)

end Hermes.Decompile
