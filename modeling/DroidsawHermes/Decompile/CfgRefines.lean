-- SUMMARY: The built graph refines the leader-set oracle: same leaders, blocks, labelled edges and entry.
import DroidsawHermes.Decompile.CfgShapes

/-!
# Refinement of the oracle

The leaders of the oracle are the starts of the parts. From there on every part
is compared on its own: its instructions, its labelled edges and its catch block.
-/

open Bytes

namespace Hermes.Decompile

/-! ## Leaders -/

/-- The oracle looks at the same addresses as the builder. -/
theorem mem_leaderTargets {bytecodes : List UInt8} {inst : DecodedInst} (h : inst.Sound)
    (hfits : inst.stop ≤ u32Max) {p : Nat} :
    p ∈ leaderTargets bytecodes inst ↔ p ∈ instBoundaries bytecodes inst inst.stop := by
  have hnext := instNextOffset_eq_some.mpr ⟨hfits, rfl⟩
  have htarget : (p ∈ if oracleHasBranchTarget inst.name then inst.branchTarget.toList else []) ↔
      p ∈ inst.branchTarget.toList := by
    cases hbranch : inst.branchTarget with
    | none => simp
    | some target => simp [h.branchTarget (by simp [hbranch])]
  have hterm : (p ∈ if oracleIsTerminator inst.name then (instNextOffset inst).toList else []) ↔
      p ∈ if inst.isTerminator then [inst.stop] else [] := by
    rw [isTerminator_eq h, hnext]
    rfl
  simp only [leaderTargets, instBoundaries, List.mem_append, htarget, hterm, isStringSwitch_eq,
    isIntSwitch_eq, defaultTarget, caseTargets]
  rw [or_assoc]
  apply or_congr_right
  by_cases hstring : inst.isStringSwitch
  · simp [hstring, isSwitch_of_string hstring, stringCaseTargets]
  · simp [hstring, intCaseTargets]

theorem mem_foldl_insertIfInstr {instOffsets l : List Nat} {leaders : OrdSet Nat} {p : Nat} :
    p ∈ (l.foldl (insertIfInstr instOffsets) leaders).keys ↔
      p ∈ leaders.keys ∨ p ∈ l ∧ p ∈ instOffsets := by
  induction l generalizing leaders with
  | nil => simp
  | cons t l ih =>
    rw [List.foldl_cons, ih, insertIfInstr]
    split
    · next hinstr =>
      rw [OrdSet.mem_insert, List.mem_cons]
      constructor
      · rintro ((rfl | h) | h)
        · exact Or.inr ⟨Or.inl rfl, hinstr⟩
        · exact Or.inl h
        · exact Or.inr ⟨Or.inr h.1, h.2⟩
      · rintro (h | ⟨rfl | h, hp⟩)
        · exact Or.inl (Or.inr h)
        · exact Or.inl (Or.inl rfl)
        · exact Or.inr ⟨h, hp⟩
    · next hinstr =>
      rw [List.mem_cons]
      constructor
      · exact Or.imp_right fun h => ⟨Or.inr h.1, h.2⟩
      · rintro (h | ⟨rfl | h, hp⟩)
        · exact Or.inl h
        · exact absurd hp hinstr
        · exact Or.inr ⟨h, hp⟩

theorem mem_foldl_targets {α : Type} {instOffsets : List Nat} (targets : α → List Nat) {l : List α}
    {leaders : OrdSet Nat} {p : Nat} :
    p ∈ (l.foldl (fun leaders a => (targets a).foldl (insertIfInstr instOffsets) leaders)
        leaders).keys ↔ p ∈ leaders.keys ∨ (∃ a ∈ l, p ∈ targets a) ∧ p ∈ instOffsets := by
  induction l generalizing leaders with
  | nil => simp
  | cons a l ih =>
    rw [List.foldl_cons, ih, mem_foldl_insertIfInstr, List.exists_mem_cons_iff, or_assoc,
      or_and_right]

section Leaders

variable {insts : List DecodedInst} {excHandlers : List ExcHandler} {bytecodes : List UInt8}
  {boundaries : OrdSet Nat} {cfg : Cfg} {hi : Nat}

theorem mem_findLeaders (hne : insts ≠ []) (htiles : InstTiles 0 hi insts)
    (hfits : ∀ inst ∈ insts, inst.stop ≤ u32Max) (hsound : ∀ inst ∈ insts, inst.Sound) {p : Nat} :
    p ∈ (findLeaders insts excHandlers bytecodes).keys ↔
      (∃ inst ∈ insts, inst.offset = p) ∧ IsBoundary insts excHandlers bytecodes p := by
  obtain ⟨first, rest, rfl⟩ := List.exists_cons_of_ne_nil hne
  have hfirst : p ∈ (OrdSet.empty.insert first.offset : OrdSet Nat).keys ↔ p = 0 := by
    rw [OrdSet.mem_insert, htiles.1]
    simp [OrdSet.empty, OrdMap.empty, OrdMap.keys]
  have htargets : (∃ inst ∈ first :: rest, p ∈ leaderTargets bytecodes inst) ↔
      ∃ inst ∈ first :: rest, p ∈ instBoundaries bytecodes inst inst.stop := by
    refine exists_congr fun inst => and_congr_right fun hinst => ?_
    exact mem_leaderTargets (hsound inst hinst) (hfits inst hinst)
  have hzero : p = 0 → ∃ inst ∈ first :: rest, inst.offset = p := fun hp =>
    ⟨first, List.mem_cons_self, htiles.1.trans hp.symm⟩
  have hhandlers : (∃ eh ∈ excHandlers, p ∈ [eh.start, eh.stop, eh.target]) ↔
      ∃ eh ∈ excHandlers, p = eh.start ∨ p = eh.stop ∨ p = eh.target := by
    simp only [List.mem_cons, List.not_mem_nil, or_false]
  unfold findLeaders
  rw [mem_foldl_targets fun eh : ExcHandler => [eh.start, eh.stop, eh.target],
    mem_foldl_targets, List.head?_cons, Option.elim_some, hfirst, htargets, hhandlers, IsBoundary,
    List.mem_map]
  constructor
  · rintro ((hp | ⟨hp, hinst⟩) | ⟨hp, hinst⟩)
    · exact ⟨hzero hp, Or.inl hp⟩
    · exact ⟨hinst, Or.inr (Or.inl hp)⟩
    · exact ⟨hinst, Or.inr (Or.inr hp)⟩
  · rintro ⟨hinst, hp | hp | hp⟩
    · exact Or.inl (Or.inl hp)
    · exact Or.inl (Or.inr ⟨hp, hinst⟩)
    · exact Or.inr ⟨hp, hinst⟩

/-- The leaders are the starts of the parts. -/
theorem findLeaders_keys (h : Built insts excHandlers bytecodes boundaries cfg) (hne : insts ≠ [])
    (htiles : InstTiles 0 hi insts) (hsound : ∀ inst ∈ insts, inst.Sound) :
    (findLeaders insts excHandlers bytecodes).keys = (parts boundaries insts).map startOf := by
  have hzero : 0 ∈ boundaries.keys := (h.boundary 0).mpr (Or.inl rfl)
  refine OrdMap.eq_of_mem_iff (OrdMap.keys_sorted _)
    (List.pairwise_map.mpr (parts_tiles boundaries htiles).starts_sorted) fun p => ?_
  rw [mem_findLeaders hne htiles h.fits hsound, mem_starts htiles hzero, h.boundary]

end Leaders

/-! ## Blocks -/

theorem mem_of_leaderOf {leaders : List Nat} {offset l : Nat}
    (h : leaderOf leaders offset = some l) : l ∈ leaders :=
  List.mem_of_mem_filter (List.mem_of_getLast? h)

theorem keys_pushInst (m : OrdMap Nat (List Nat)) (inst : DecodedInst) :
    (pushInst m inst).keys = m.keys := by
  rw [pushInst]
  split
  · next leader hleader => exact OrdMap.keys_insert_of_mem (mem_of_leaderOf hleader)
  · rfl

theorem get?_pushInst (m : OrdMap Nat (List Nat)) (inst : DecodedInst) (k : Nat) :
    (pushInst m inst).get? k =
      (m.get? k).map (· ++ if leaderOf m.keys inst.offset = some k then [inst.offset] else []) := by
  rw [pushInst]
  split
  · next leader hleader =>
    obtain ⟨addrs, haddrs⟩ := OrdMap.mem_keys_iff.mp (mem_of_leaderOf hleader)
    rw [OrdMap.get?_insert, hleader]
    by_cases hk : k = leader
    · simp [hk, haddrs]
    · simp [hk, Ne.symm hk]
  · next hnone => simp [hnone]

theorem foldl_pushInst (insts : List DecodedInst) (m : OrdMap Nat (List Nat)) (k : Nat) :
    (insts.foldl pushInst m).get? k = (m.get? k).map (· ++
      (insts.filter fun inst => leaderOf m.keys inst.offset = some k).map (·.offset)) := by
  induction insts generalizing m with
  | nil => simp
  | cons inst insts ih =>
    rw [List.foldl_cons, ih, keys_pushInst, get?_pushInst, Option.map_map]
    congr 1
    funext addrs
    by_cases hleader : leaderOf m.keys inst.offset = some k <;> simp [hleader]

section Blocks

variable {insts : List DecodedInst} {boundaries : OrdSet Nat} {hi : Nat}

/-- The leader of an instruction is the start of its part. -/
theorem leaderOf_part (htiles : InstTiles 0 hi insts) {part : List DecodedInst}
    (hpart : part ∈ parts boundaries insts) {inst : DecodedInst} (hinst : inst ∈ part) :
    leaderOf ((parts boundaries insts).map startOf) inst.offset = some (startOf part) := by
  have hps := parts_tiles boundaries htiles
  have hrange := parts_inRange htiles hpart hinst
  have hmem := mem_of_mem_parts hpart hinst
  have hlt := (htiles.bounds hmem).2.1
  obtain ⟨before, after, hsplit⟩ := List.mem_iff_append.mp hpart
  rw [hsplit] at hps ⊢
  have hordered := (List.pairwise_append.mp hps.ordered).2.1
  have hafter : (after.map startOf).filter (· ≤ inst.offset) = [] := by
    rw [List.filter_eq_nil_iff]
    intro start hstart
    obtain ⟨other, hother, rfl⟩ := List.mem_map.mp hstart
    have hle := (List.pairwise_cons.mp hordered).1 other hother
    simp only [decide_eq_true_eq, not_le]
    omega
  rw [leaderOf, List.map_append, List.map_cons, List.filter_append,
    List.filter_cons_of_pos (by simp [hrange.1]), hafter]
  exact List.getLast?_concat

theorem filter_leaderOf (htiles : InstTiles 0 hi insts) {part : List DecodedInst}
    (hpart : part ∈ parts boundaries insts) :
    (insts.filter fun inst =>
      leaderOf ((parts boundaries insts).map startOf) inst.offset = some (startOf part)) = part := by
  have hnodup : ((parts boundaries insts).map (some ∘ startOf)).Nodup := by
    rw [← List.map_map]
    exact (starts_nodup boundaries htiles).map (Option.some_injective _)
  have hfilter := Segments.filter_flatten
    (fun other hother inst hinst => leaderOf_part htiles hother hinst) hnodup hpart
  rw [parts_flatten] at hfilter
  exact hfilter

/-- The block of each part has its instructions. -/
theorem get?_fillBlocks (htiles : InstTiles 0 hi insts) {leaders : OrdSet Nat}
    (hleaders : leaders.keys = (parts boundaries insts).map startOf) {part : List DecodedInst}
    (hpart : part ∈ parts boundaries insts) :
    (fillBlocks leaders insts).get? (startOf part) = some (part.map (·.offset)) := by
  have hempty : (leaders.mapVal fun _ _ => ([] : List Nat)).get? (startOf part) = some [] := by
    have hmem : startOf part ∈ leaders.keys := hleaders ▸ List.mem_map_of_mem hpart
    obtain ⟨_, hget⟩ := OrdMap.mem_keys_iff.mp hmem
    rw [OrdMap.get?_mapVal, hget]
    rfl
  rw [fillBlocks, foldl_pushInst, hempty, OrdMap.keys_mapVal, hleaders,
    filter_leaderOf htiles hpart]
  rfl

theorem keys_fillBlocks (leaders : OrdSet Nat) (insts : List DecodedInst) :
    (fillBlocks leaders insts).keys = leaders.keys := by
  have hkeys : ∀ m, (insts.foldl pushInst m).keys = m.keys := by
    induction insts with
    | nil => exact fun _ => rfl
    | cons inst insts ih => exact fun m => (ih _).trans (keys_pushInst m inst)
  rw [fillBlocks, hkeys, OrdMap.keys_mapVal]

theorem instAt_eq (htiles : InstTiles 0 hi insts) {inst : DecodedInst} (hinst : inst ∈ insts) :
    instAt insts inst.offset = some inst := by
  have hne : (insts.filter fun i => i.offset = inst.offset) ≠ [] :=
    List.ne_nil_of_mem (List.mem_filter.mpr ⟨hinst, decide_eq_true rfl⟩)
  obtain ⟨found, hfound⟩ := Option.isSome_iff_exists.mp (List.getLast?_isSome.mpr hne)
  obtain ⟨hmem, heq⟩ := List.mem_filter.mp (List.mem_of_getLast? hfound)
  rw [instAt, hfound, htiles.start_inj hmem hinst (of_decide_eq_true heq)]

theorem lastInst_eq (htiles : InstTiles 0 hi insts) {leaders : OrdSet Nat}
    (hleaders : leaders.keys = (parts boundaries insts).map startOf) {part : List DecodedInst}
    (hpart : part ∈ parts boundaries insts) :
    lastInst insts (fillBlocks leaders insts) (startOf part) = part.getLast? := by
  obtain ⟨last, hlast, hmem⟩ := exists_getLast hpart
  rw [lastInst, get?_fillBlocks htiles hleaders hpart, Option.getD_some, List.getLast?_map, hlast]
  exact instAt_eq htiles hmem

end Blocks

/-! ## Edges of the oracle -/

theorem addNormalEdges_flow {last : DecodedInst} (h : last.Sound) (bytecodes : List UInt8)
    (leaders : OrdSet Nat) (leader : Nat) (edges : Finset OracleEdge) :
    addNormalEdges bytecodes leaders leader edges last =
      match last.flow with
      | .jump => addIfLeader leaders leader .branch edges last.branchTarget
      | .branch =>
        if instNextOffset last ≠ last.branchTarget then
          addIfLeader leaders leader .fallThrough
            (addIfLeader leaders leader .branch edges last.branchTarget) (instNextOffset last)
        else addIfLeader leaders leader .branch edges last.branchTarget
      | .switch => (caseTargets bytecodes last).foldl (addCase leaders leader)
          (addIfLeader leaders leader .switchDefault edges (defaultTarget last))
      | .stop => edges
      | .next => addIfLeader leaders leader .fallThrough edges (instNextOffset last) := by
  have hexit : (oracleIsReturn last.name || oracleIsThrow last.name ||
      oracleIsUnreachable last.name) =
        (last.isReturn || last.isThrow || last.name = "Unreachable") := rfl
  rw [addNormalEdges, hexit, isUncondJump_eq, isCondBranch_eq h, isStringSwitch_eq, isIntSwitch_eq]
  split
  · next hstop => rw [stop_of_exit hstop]
  · next hgo =>
    by_cases hstring : last.isStringSwitch
    · simp only [DecodedInst.flow, defaultTarget, caseTargets, hstring, isSwitch_of_string hstring,
        if_true, hgo, stringCaseTargets]
      split_ifs <;> rfl
    · simp only [DecodedInst.flow, defaultTarget, caseTargets, hstring, hgo, intCaseTargets,
        Bool.not_false, Bool.and_true, if_false, Bool.false_eq_true]
      split_ifs <;> rfl

section OracleEdges

variable {bytecodes : List UInt8} {leaders : OrdSet Nat} {leader : Nat}
  {edges : Finset OracleEdge} {e : OracleEdge}

theorem mem_addIfLeader {kind : EdgeKindOracle} {target : Option Nat} :
    e ∈ addIfLeader leaders leader kind edges target ↔
      e ∈ edges ∨ ∃ t ∈ leaders.keys, target = some t ∧ e = (leader, t, kind) := by
  unfold addIfLeader
  cases target with
  | none => simp
  | some t =>
    by_cases ht : t ∈ leaders.keys
    · simp [ht, or_comm]
    · simp only [ht, if_false, Option.some.injEq]
      constructor
      · exact Or.inl
      · rintro (he | ⟨_, hmem, rfl, -⟩)
        · exact he
        · exact absurd hmem ht

theorem mem_foldl_addCase {cases : List Nat} :
    e ∈ cases.foldl (addCase leaders leader) edges ↔
      e ∈ edges ∨ ∃ t ∈ leaders.keys, t ∈ cases ∧ (leader, t, .switchDefault) ∉ edges ∧
        e = (leader, t, .branch) := by
  induction cases generalizing edges with
  | nil => simp
  | cons t cases ih =>
    rw [List.foldl_cons, ih, addCase]
    split
    · next hnew =>
      simp only [Finset.mem_insert, List.mem_cons, Prod.mk.injEq, reduceCtorEq, and_false, false_or]
      constructor
      · rintro ((rfl | he) | ⟨s, hs, hcase, hdefault, rfl⟩)
        · exact Or.inr ⟨t, hnew.1, Or.inl rfl, hnew.2, rfl⟩
        · exact Or.inl he
        · exact Or.inr ⟨s, hs, Or.inr hcase, hdefault, rfl⟩
      · rintro (he | ⟨s, hs, rfl | hcase, hdefault, rfl⟩)
        · exact Or.inl (Or.inr he)
        · exact Or.inl (Or.inl rfl)
        · exact Or.inr ⟨s, hs, hcase, hdefault, rfl⟩
    · next hold =>
      simp only [List.mem_cons]
      constructor
      · rintro (he | ⟨s, hs, hcase, hrest⟩)
        · exact Or.inl he
        · exact Or.inr ⟨s, hs, Or.inr hcase, hrest⟩
      · rintro (he | ⟨s, hs, rfl | hcase, hdefault, hes⟩)
        · exact Or.inl he
        · exact absurd ⟨hs, hdefault⟩ hold
        · exact Or.inr ⟨s, hs, hcase, hdefault, hes⟩

/-- What the oracle adds for one block. -/
theorem mem_addNormalEdges {last : DecodedInst} (h : last.Sound)
    (hfresh : ∀ t kind, (leader, t, kind) ∉ edges) :
    e ∈ addNormalEdges bytecodes leaders leader edges last ↔
      e ∈ edges ∨ ∃ t kind, e = (leader, t, kind) ∧
        LabelledEdge bytecodes leaders.keys last t kind := by
  rw [addNormalEdges_flow h]
  unfold LabelledEdge
  cases last.flow with
  | jump =>
    simp only [mem_addIfLeader]
    grind
  | branch =>
    simp only
    split
    · simp only [mem_addIfLeader]
      grind
    · simp only [mem_addIfLeader]
      grind
  | switch =>
    simp only [mem_foldl_addCase, mem_addIfLeader]
    grind
  | stop => simp
  | next =>
    simp only [mem_addIfLeader]
    grind

theorem mem_foldl_addLeaderEdges {insts : List DecodedInst}
    {blockInstructions : OrdMap Nat (List Nat)} {l : List Nat} (hnodup : l.Nodup)
    (hsound : ∀ leader ∈ l, ∀ last ∈ lastInst insts blockInstructions leader, last.Sound)
    (hfresh : ∀ leader ∈ l, ∀ t kind, (leader, t, kind) ∉ edges) :
    e ∈ l.foldl (addLeaderEdges insts bytecodes leaders blockInstructions) edges ↔
      e ∈ edges ∨ ∃ leader ∈ l, ∃ last ∈ lastInst insts blockInstructions leader,
        ∃ t kind, e = (leader, t, kind) ∧ LabelledEdge bytecodes leaders.keys last t kind := by
  induction l generalizing edges with
  | nil => simp
  | cons leader l ih =>
    obtain ⟨hnew, hnodup⟩ := List.nodup_cons.mp hnodup
    obtain ⟨hown, hrestSound⟩ := List.forall_mem_cons.mp hsound
    obtain ⟨hownFresh, hrestFresh⟩ := List.forall_mem_cons.mp hfresh
    have hstep : ∀ e, e ∈ addLeaderEdges insts bytecodes leaders blockInstructions edges leader ↔
        e ∈ edges ∨ ∃ last ∈ lastInst insts blockInstructions leader,
          ∃ t kind, e = (leader, t, kind) ∧ LabelledEdge bytecodes leaders.keys last t kind := by
      intro e
      rw [addLeaderEdges]
      cases hlast : lastInst insts blockInstructions leader with
      | none => simp
      | some last =>
        rw [hlast] at hown
        simp only [Option.mem_def, Option.some.injEq, exists_eq_left']
        exact mem_addNormalEdges (hown last rfl) hownFresh
    rw [List.foldl_cons, ih hnodup hrestSound, hstep, or_assoc, List.exists_mem_cons_iff]
    intro other hother t kind hmem
    rcases (hstep _).mp hmem with hold | ⟨_, -, _, _, heq, -⟩
    · exact hrestFresh other hother t kind hold
    · exact hnew ((Prod.mk.inj heq).1 ▸ hother)

end OracleEdges

/-! ## Catch edges of the oracle -/

theorem get?_foldl_insertIf {α : Type} {key : α → Nat} {p : α → Prop} [DecidablePred p] {v : Nat}
    (l : List α) (m : OrdMap Nat Nat) (k : Nat) :
    (l.foldl (fun m a => if p a then m.insert (key a) v else m) m).get? k =
      if ∃ a ∈ l, key a = k ∧ p a then some v else m.get? k := by
  induction l generalizing m with
  | nil => simp
  | cons a l ih =>
    rw [List.foldl_cons, ih]
    by_cases hrest : ∃ b ∈ l, key b = k ∧ p b
    · simp [hrest]
    · rw [if_neg hrest]
      by_cases hp : p a
      · simp only [hp, if_true, OrdMap.get?_insert, List.exists_mem_cons_iff, hrest, or_false,
          and_true, @eq_comm _ k (key a)]
      · simp only [hp, if_false, List.exists_mem_cons_iff, hrest, or_false, and_false]

section CatchEdges

variable {insts : List DecodedInst} {excHandlers : List ExcHandler} {boundaries : OrdSet Nat}
  {leaders : OrdSet Nat} {hi : Nat}

theorem oracleBlockEnd_eq (htiles : InstTiles 0 hi insts)
    (hfits : ∀ inst ∈ insts, inst.stop ≤ u32Max)
    (hleaders : leaders.keys = (parts boundaries insts).map startOf) {part : List DecodedInst}
    (hpart : part ∈ parts boundaries insts) (leaderVec : List Nat) (i : Nat) :
    oracleBlockEnd insts leaderVec (fillBlocks leaders insts) i (startOf part) =
      some (stopOf part) := by
  obtain ⟨last, hlast, hmem⟩ := exists_getLast hpart
  rw [oracleBlockEnd, get?_fillBlocks htiles hleaders hpart, Option.getD_some, List.getLast?_map,
    hlast, Option.map_some, Option.map_some, instAt_eq htiles hmem, stopOf, hlast]
  exact congrArg some (Nat.min_eq_left (hfits last hmem))

theorem get?_enterHandler (htiles : InstTiles 0 hi insts)
    (hfits : ∀ inst ∈ insts, inst.stop ≤ u32Max)
    (hleaders : leaders.keys = (parts boundaries insts).map startOf) {eh : ExcHandler}
    (htarget : eh.target ∈ leaders.keys) (m : OrdMap Nat Nat) :
    (∀ part ∈ parts boundaries insts,
      (enterHandler insts leaders (fillBlocks leaders insts) m eh).get? (startOf part) =
        if startOf part ≥ eh.start ∧ stopOf part ≤ eh.stop then some eh.target
        else m.get? (startOf part)) ∧
    ∀ k ∉ leaders.keys,
      (enterHandler insts leaders (fillBlocks leaders insts) m eh).get? k = m.get? k := by
  have hps := parts_tiles boundaries htiles
  -- the leaders whose block lies in the region
  let inRegion (start : Nat) : Prop := ∃ part ∈ parts boundaries insts,
    startOf part = start ∧ startOf part ≥ eh.start ∧ stopOf part ≤ eh.stop
  have hregion : ∀ part ∈ parts boundaries insts,
      inRegion (startOf part) ↔ startOf part ≥ eh.start ∧ stopOf part ≤ eh.stop := by
    intro part hpart
    constructor
    · rintro ⟨other, hother, hsame, hrange⟩
      rw [← hps.start_inj hother hpart hsame]
      exact hrange
    · exact fun hrange => ⟨part, hpart, rfl, hrange⟩
  have hfold : enterHandler insts leaders (fillBlocks leaders insts) m eh =
      leaders.keys.zipIdx.foldl (fun m entry =>
        if inRegion entry.1 then m.insert entry.1 eh.target else m) m := by
    rw [enterHandler, if_neg (not_not.mpr htarget)]
    refine List.foldl_ext _ _ _ ?_
    rintro m ⟨start, i⟩ hentry
    have hstart : start ∈ (parts boundaries insts).map startOf :=
      hleaders ▸ List.fst_mem_of_mem_zipIdx hentry
    obtain ⟨part, hpart, rfl⟩ := List.mem_map.mp hstart
    simp only [enterBlock, oracleBlockEnd_eq htiles hfits hleaders hpart, hregion part hpart]
  rw [hfold]
  constructor
  · intro part hpart
    have hstart : startOf part ∈ leaders.keys := hleaders ▸ List.mem_map_of_mem hpart
    have hentry : (∃ entry ∈ leaders.keys.zipIdx, entry.1 = startOf part ∧ inRegion entry.1) ↔
        startOf part ≥ eh.start ∧ stopOf part ≤ eh.stop := by
      rw [← hregion part hpart]
      constructor
      · rintro ⟨entry, -, heq, hin⟩
        exact heq ▸ hin
      · intro hin
        obtain ⟨i, hi⟩ := List.mem_iff_getElem?.mp hstart
        exact ⟨(startOf part, i), List.mk_mem_zipIdx_iff_getElem?.mpr hi, rfl, hin⟩
    rw [get?_foldl_insertIf]
    simp only [hentry]
  · intro k hk
    rw [get?_foldl_insertIf, if_neg]
    rintro ⟨entry, hentry, rfl, -⟩
    exact hk (List.fst_mem_of_mem_zipIdx hentry)

/-- The map of catch blocks, over all handlers. -/
theorem get?_blockExc (htiles : InstTiles 0 hi insts) (hfits : ∀ inst ∈ insts, inst.stop ≤ u32Max)
    (hleaders : leaders.keys = (parts boundaries insts).map startOf)
    (htargets : ∀ eh ∈ excHandlers, eh.target ∈ leaders.keys) (m : OrdMap Nat Nat) :
    (∀ part ∈ parts boundaries insts,
      (excHandlers.foldl (enterHandler insts leaders (fillBlocks leaders insts)) m).get?
          (startOf part) =
        lastHandler excHandlers (startOf part) (stopOf part) (m.get? (startOf part))) ∧
    ∀ k ∉ leaders.keys,
      (excHandlers.foldl (enterHandler insts leaders (fillBlocks leaders insts)) m).get? k =
        m.get? k := by
  induction excHandlers generalizing m with
  | nil => exact ⟨fun _ _ => rfl, fun _ _ => rfl⟩
  | cons eh rest ih =>
    obtain ⟨htarget, hrest⟩ := List.forall_mem_cons.mp htargets
    obtain ⟨hin, hout⟩ := get?_enterHandler htiles hfits hleaders htarget m
    obtain ⟨hinRest, houtRest⟩ :=
      ih hrest (enterHandler insts leaders (fillBlocks leaders insts) m eh)
    constructor
    · intro part hpart
      rw [List.foldl_cons, hinRest part hpart, hin part hpart]
      rfl
    · intro k hk
      rw [List.foldl_cons, houtRest k hk, hout k hk]

end CatchEdges

/-! ## The shape of the oracle -/

section Shapes

variable {insts : List DecodedInst} {excHandlers : List ExcHandler} {bytecodes : List UInt8}
  {boundaries : OrdSet Nat} {cfg : Cfg} {hi : Nat}

/-- Every leader has instructions: there is nothing to prune. -/
theorem prune_fillBlocks (htiles : InstTiles 0 hi insts) {leaders : OrdSet Nat}
    (hleaders : leaders.keys = (parts boundaries insts).map startOf) :
    (fillBlocks leaders insts).filter (fun _ v => v ≠ []) = fillBlocks leaders insts ∧
      leaders.filter (fun l _ => l ∈ (fillBlocks leaders insts).keys) = leaders := by
  constructor
  · refine OrdMap.filter_eq_self fun k v hget => ?_
    have hk := OrdMap.mem_keys_iff.mpr ⟨v, hget⟩
    rw [keys_fillBlocks, hleaders] at hk
    obtain ⟨part, hpart, rfl⟩ := List.mem_map.mp hk
    cases (get?_fillBlocks htiles hleaders hpart).symm.trans hget
    simpa using parts_ne_nil hpart
  · refine OrdMap.filter_eq_self fun k v hget => ?_
    rw [keys_fillBlocks]
    exact decide_eq_true (OrdMap.mem_keys_iff.mpr ⟨v, hget⟩)

theorem mem_foldl_catchEdges {l : List (Nat × Nat)} {edges : Finset OracleEdge} {e : OracleEdge} :
    e ∈ l.foldl (fun edges entry => insert (entry.1, entry.2, .exceptionHandler) edges) edges ↔
      e ∈ edges ∨ ∃ entry ∈ l, e = (entry.1, entry.2, .exceptionHandler) := by
  induction l generalizing edges with
  | nil => simp
  | cons entry l ih =>
    rw [List.foldl_cons, ih, Finset.mem_insert, List.exists_mem_cons_iff]
    tauto

theorem mem_blockExc (htiles : InstTiles 0 hi insts) (hfits : ∀ inst ∈ insts, inst.stop ≤ u32Max)
    {leaders : OrdSet Nat} (hleaders : leaders.keys = (parts boundaries insts).map startOf)
    (htargets : ∀ eh ∈ excHandlers, eh.target ∈ leaders.keys) {e : OracleEdge} :
    (∃ entry ∈ (excHandlers.foldl (enterHandler insts leaders (fillBlocks leaders insts))
        OrdMap.empty).toList, e = (entry.1, entry.2, .exceptionHandler)) ↔
      ∃ part ∈ parts boundaries insts,
        ∃ c ∈ lastHandler excHandlers (startOf part) (stopOf part) none,
          e = (startOf part, c, .exceptionHandler) := by
  obtain ⟨hin, hout⟩ := get?_blockExc htiles hfits hleaders htargets OrdMap.empty
  constructor
  · rintro ⟨⟨k, c⟩, hentry, rfl⟩
    have hget := OrdMap.get?_eq_some_iff.mpr hentry
    by_cases hk : k ∈ leaders.keys
    · rw [hleaders] at hk
      obtain ⟨part, hpart, rfl⟩ := List.mem_map.mp hk
      exact ⟨part, hpart, c, (hin part hpart).symm.trans hget, rfl⟩
    · cases (hout k hk).symm.trans hget
  · rintro ⟨part, hpart, c, hc, rfl⟩
    exact ⟨(startOf part, c), OrdMap.get?_eq_some_iff.mp ((hin part hpart).trans hc), rfl⟩

theorem Built.naiveCfg_spec (h : Built insts excHandlers bytecodes boundaries cfg)
    (hne : insts ≠ []) (htiles : InstTiles 0 hi insts) (hsound : ∀ inst ∈ insts, inst.Sound) :
    ∃ shape, naiveCfg insts excHandlers bytecodes = .ok shape ∧
      ShapeOf excHandlers bytecodes (parts boundaries insts) shape := by
  have hps := parts_tiles boundaries htiles
  have hleaders := findLeaders_keys h hne htiles hsound
  have htargets : ∀ eh ∈ excHandlers,
      eh.target ∈ (findLeaders insts excHandlers bytecodes).keys := by
    rw [hleaders]
    exact h.targets
  rw [naiveCfg, if_neg hne]
  generalize findLeaders insts excHandlers bytecodes = leaders at hleaders htargets ⊢
  obtain ⟨hpruned, hkept⟩ := prune_fillBlocks htiles hleaders
  simp only [hpruned, hkept]
  refine ⟨_, rfl, hleaders, fun e => ?_, ?_, ?_⟩
  · have hlast : ∀ part ∈ parts boundaries insts,
        lastInst insts (fillBlocks leaders insts) (startOf part) = part.getLast? :=
      fun part hpart => lastInst_eq htiles hleaders hpart
    have hlastSound : ∀ leader ∈ leaders.keys,
        ∀ last ∈ lastInst insts (fillBlocks leaders insts) leader, last.Sound := by
      rw [hleaders, List.forall_mem_map]
      intro part hpart last hlastMem
      rw [hlast part hpart] at hlastMem
      exact hsound last (mem_of_mem_parts hpart (List.mem_of_getLast? hlastMem))
    rw [mem_foldl_catchEdges, mem_foldl_addLeaderEdges leaders.keys_nodup hlastSound (by simp),
      mem_blockExc htiles h.fits hleaders htargets, hleaders]
    simp only [Finset.notMem_empty, false_or, List.mem_map, exists_exists_and_eq_and]
    constructor
    · rintro (⟨part, hpart, last, hlastMem, hedge⟩ | ⟨part, hpart, hcatch⟩)
      · exact ⟨part, hpart, Or.inr ⟨last, hlast part hpart ▸ hlastMem, hedge⟩⟩
      · exact ⟨part, hpart, Or.inl hcatch⟩
    · rintro ⟨part, hpart, hcatch | ⟨last, hlastMem, hedge⟩⟩
      · exact Or.inr ⟨part, hpart, hcatch⟩
      · exact Or.inl ⟨part, hpart, last, (hlast part hpart).symm ▸ hlastMem, hedge⟩
  · simp only
    rw [hleaders, List.head?_map, List.head?_eq_some_head (parts_ne boundaries hne)]
    exact hps.start_head _
  · exact OrdMap.toList_eq_map ((keys_fillBlocks leaders insts).trans hleaders)
      fun part hpart => get?_fillBlocks htiles hleaders hpart

end Shapes

/-! ## Refinement -/

/-- On every decoded function, what the builder and the oracle accept they give the
same shape. -/
theorem build_refines_oracle {t : OpcodeTables} (ht : t.Sound) {code bytecodes : List UInt8}
    {insts : List DecodedInst} {excHandlers : List ExcHandler} {cfg : Cfg} {shape : CfgShape}
    (hdecode : decodeFunction t code = .ok insts)
    (hbuild : Cfg.build insts excHandlers bytecodes = .ok cfg)
    (hnaive : naiveCfg insts excHandlers bytecodes = .ok shape) : cfg.toShape = shape := by
  have hfrom := decodeFunction_spec hdecode
  by_cases hne : insts = []
  · subst hne
    cases hbuild
    cases hnaive
    rfl
  · have htiles := fun hfits => hfrom.tiles hfits (Nat.zero_le _)
    obtain ⟨boundaries, hbuilt⟩ := build_built hne htiles hbuild
    have htiles := htiles hbuilt.fits
    have hsound := hfrom.sound ht
    obtain ⟨shape', hshape', hspec'⟩ := hbuilt.naiveCfg_spec hne htiles hsound
    cases hshape'.symm.trans hnaive
    exact (hbuilt.toShape_spec hne htiles hsound).unique hspec'

/-- The first block throws to the last one. -/
def skipHandlers : List ExcHandler := [⟨0, 3, 5⟩]

theorem build_refines_oracle_skip : ∃ insts cfg shape,
    decodeFunction v95Tables skipCode = .ok insts ∧
    Cfg.build insts skipHandlers skipCode = .ok cfg ∧
    naiveCfg insts skipHandlers skipCode = .ok shape ∧ cfg.toShape = shape := by
  obtain ⟨insts, hdecode, hok⟩ := @Loop.exists_of_okAnd _ _ (decodeFunction v95Tables skipCode)
    (fun insts => (Cfg.build insts skipHandlers skipCode).isOk &&
      (naiveCfg insts skipHandlers skipCode).isOk) (by decide)
  obtain ⟨hbuildOk, hnaiveOk⟩ := (Bool.and_eq_true _ _).mp hok
  cases hbuild : Cfg.build insts skipHandlers skipCode with
  | error e =>
    rw [hbuild] at hbuildOk
    cases hbuildOk
  | ok cfg =>
    cases hnaive : naiveCfg insts skipHandlers skipCode with
    | error e =>
      rw [hnaive] at hnaiveOk
      cases hnaiveOk
    | ok shape =>
      exact ⟨insts, cfg, shape, hdecode, hbuild, hnaive,
        build_refines_oracle v95Tables_sound hdecode hbuild hnaive⟩

end Hermes.Decompile
