-- SUMMARY: Definitions and uses of what `build_ssa` returns: definitions are unique, and exactly which phi arguments stay undefined.
import DroidsawHermes.Decompile.BlockOrder
import DroidsawHermes.Decompile.CommonBuilder
import DroidsawHermes.Decompile.Closed
import DroidsawHermes.Decompile.TablesV95

/-!
# SSA form

The builder is known by what it promises, `CommonBuilder.Lawful`. Definitions
come from instructions, phis and the post-pass, and no two are the same. The
post-pass looks at operands only: a version of a register that is never written
has no definition where only phis take it.
-/

namespace Hermes.Decompile

/-- Every variable has at most one definition, and every variable that is read has
one. -/
structure SsaFunction.SsaForm (f : SsaFunction) : Prop where
  once : f.defs.Nodup
  defined : ∀ v ∈ f.reads, v ∈ f.defs

/-! ## Pass 1 -/

section Walk

variable {σ : Type} {B : CommonBuilder σ} {types : DecodedInst → List OpType} {g : SsaCfg}
  {vars : List VarId} {bid : BlockId}

theorem pushRead_calls {acc acc' : List SsaOperand × σ} {reg : Nat} (hbid : bid ∈ g.nodes)
    (hcalls : B.Calls g vars acc.2) (h : pushRead B g bid acc reg = .ok acc') :
    B.Calls g vars acc'.2 := by
  obtain ⟨⟨v, s⟩, hread, h⟩ := Loop.bind_eq_ok.mp h
  cases h
  exact hcalls.read hbid hread

theorem pushOperand_calls {acc acc' : List SsaOperand × σ} {dst : Option Nat} {inst : DecodedInst}
    {x : Operand × Nat} (hbid : bid ∈ g.nodes) (hcalls : B.Calls g vars acc.2)
    (h : pushOperand B g bid dst inst acc x = .ok acc') : B.Calls g vars acc'.2 := by
  simp only [pushOperand] at h
  split at h
  · split at h
    · cases h
      exact hcalls
    · exact pushRead_calls hbid hcalls h
  · cases h
    exact hcalls

theorem pushArg_calls {acc acc' : List SsaOperand × σ} {arg0 argCount i : Nat} {label : String}
    (hbid : bid ∈ g.nodes) (hcalls : B.Calls g vars acc.2)
    (h : pushArg B g bid arg0 argCount label acc i = .ok acc') : B.Calls g vars acc'.2 := by
  simp only [pushArg] at h
  split at h
  · exact pushRead_calls hbid hcalls h
  · cases h

theorem pushCallArgs_calls {acc acc' : List SsaOperand × σ} {frameSize totalInsns : Nat}
    {inst : DecodedInst} (hbid : bid ∈ g.nodes) (hcalls : B.Calls g vars acc.2)
    (h : pushCallArgs B g bid frameSize totalInsns inst acc = .ok acc') :
    B.Calls g vars acc'.2 := by
  simp only [pushCallArgs] at h
  split at h
  · cases h
    exact hcalls
  · split at h
    · cases h
    · split at h
      · cases h
        exact hcalls
      · obtain ⟨acc₁, hthis, hargs⟩ := Loop.bind_eq_ok.mp h
        have hcalls₁ : B.Calls g vars acc₁.2 := by
          rw [pushThis] at hthis
          split at hthis
          · exact pushRead_calls hbid hcalls hthis
          · cases hthis
            exact hcalls
        exact Loop.foldlM_invariant (fun acc => B.Calls g vars acc.2)
          (fun _ _ _ _ hacc hstep => pushArg_calls hbid hacc hstep) hcalls₁ hargs

theorem writeDst_calls {s s' : σ} {dstReg : Option Nat} {dst : Option VarId}
    (hbid : bid ∈ g.nodes) (hcalls : B.Calls g vars s)
    (h : writeDst B s bid dstReg = .ok (dst, s')) : B.Calls g (vars ++ dst.toList) s' := by
  cases dstReg with
  | none =>
    cases h
    rw [Option.toList_none, List.append_nil]
    exact hcalls
  | some reg =>
    obtain ⟨⟨v, s₁⟩, hnew, h⟩ := Loop.bind_eq_ok.mp h
    cases h
    exact (hcalls.newVar hnew).write hbid (List.mem_append_right _ List.mem_cons_self)

/-- The destinations of the operations are the results of `new_var`. -/
theorem walkInst_calls {frameSize totalInsns : Nat} {inst : DecodedInst}
    {acc acc' : List SsaOp × OrdMap Nat VarId × σ} (hbid : bid ∈ g.nodes)
    (hcalls : B.Calls g (vars ++ acc.1.filterMap SsaOp.dst) acc.2.2)
    (h : walkInst B types g bid frameSize totalInsns acc inst = .ok acc') :
    B.Calls g (vars ++ acc'.1.filterMap SsaOp.dst) acc'.2.2 := by
  obtain ⟨operands, hoperands, h⟩ := Loop.bind_eq_ok.mp h
  obtain ⟨⟨operands', s⟩, hargs, h⟩ := Loop.bind_eq_ok.mp h
  obtain ⟨⟨dst, s'⟩, hwrite, h⟩ := Loop.bind_eq_ok.mp h
  cases h
  have hread := Loop.foldlM_invariant (fun x => B.Calls g _ x.2)
    (fun _ _ _ _ hx hstep => pushOperand_calls hbid hx hstep) hcalls hoperands
  have hwritten := writeDst_calls hbid (pushCallArgs_calls hbid hread hargs) hwrite
  cases dst with
  | none => simpa using hwritten
  | some v => simpa using hwritten

/-- The destinations of the blocks. -/
def opDsts (blocks : List SsaBlock) : List VarId :=
  blocks.flatMap fun b => b.ops.filterMap SsaOp.dst

theorem walkBlock_spec {cfg : Cfg} {frameSize totalInsns : Nat} {w w' : Walk σ}
    (hbid : bid ∈ cfg.blocks.keys) (hcalls : B.Calls (cfgAdapter cfg) (opDsts w.blocks) w.builder)
    (h : walkBlock B types cfg frameSize totalInsns w bid = .ok w') :
    B.Calls (cfgAdapter cfg) (opDsts w'.blocks) w'.builder ∧
      ∃ b, w'.blocks = w.blocks ++ [b] ∧ b.id = bid ∧ b.phis = [] := by
  obtain ⟨block, hblock⟩ := OrdMap.mem_keys_iff.mp hbid
  simp only [walkBlock, hblock] at h
  obtain ⟨⟨ops, params, s⟩, hops, h⟩ := Loop.bind_eq_ok.mp h
  cases h
  have hrun := Loop.foldlM_invariant
    (fun acc => B.Calls (cfgAdapter cfg) (opDsts w.blocks ++ acc.1.filterMap SsaOp.dst) acc.2.2)
    (fun _ _ _ _ hacc hstep => walkInst_calls hbid hacc hstep)
    (by simpa using hcalls) hops
  exact ⟨by simpa [opDsts] using hrun, _, rfl, rfl, rfl⟩

theorem foldlM_walkBlock_spec {cfg : Cfg} {frameSize totalInsns : Nat} {order : List BlockId}
    {w w' : Walk σ} (horder : ∀ id ∈ order, id ∈ cfg.blocks.keys)
    (hcalls : B.Calls (cfgAdapter cfg) (opDsts w.blocks) w.builder)
    (h : order.foldlM (walkBlock B types cfg frameSize totalInsns) w = .ok w') :
    B.Calls (cfgAdapter cfg) (opDsts w'.blocks) w'.builder ∧
      ∃ blocks, w'.blocks = w.blocks ++ blocks ∧ blocks.map SsaBlock.id = order ∧
        ∀ b ∈ blocks, b.phis = [] := by
  induction order generalizing w with
  | nil =>
    cases h
    exact ⟨hcalls, [], by simp⟩
  | cons bid order ih =>
    obtain ⟨hbid, horder⟩ := List.forall_mem_cons.mp horder
    rw [List.foldlM_cons] at h
    obtain ⟨w₁, hstep, hrest⟩ := Loop.bind_eq_ok.mp h
    obtain ⟨hcalls₁, b, hblocks₁, hid, hphis⟩ := walkBlock_spec hbid hcalls hstep
    obtain ⟨hcalls', blocks, hblocks, hids, hnone⟩ := ih horder hcalls₁ hrest
    refine ⟨hcalls', b :: blocks, ?_, by rw [List.map_cons, hid, hids], ?_⟩
    · rw [hblocks, hblocks₁, List.append_assoc, List.singleton_append]
    · exact List.forall_mem_cons.mpr ⟨hphis, hnone⟩

end Walk

/-! ## Pass 3 -/

theorem drainPhis_eq {σ : Type} {B : CommonBuilder σ}
    (hdrained : ∀ s b c, (B.takePhis (B.takePhis s b).2 c).1 =
      if c = b then [] else (B.takePhis s c).1)
    {blocks : List SsaBlock} (hnodup : (blocks.map SsaBlock.id).Nodup) (s : σ) :
    drainPhis B blocks s = blocks.map fun b => { b with phis := (B.takePhis s b.id).1 } := by
  induction blocks generalizing s with
  | nil => rfl
  | cons b blocks ih =>
    obtain ⟨hnew, hnodup⟩ := List.nodup_cons.mp hnodup
    have hstep : drainPhis B (b :: blocks) s =
        { b with phis := (B.takePhis s b.id).1 } :: drainPhis B blocks (B.takePhis s b.id).2 := rfl
    rw [hstep, ih hnodup, List.map_cons]
    congr 1
    refine List.map_congr_left fun c hc => ?_
    have hne : c.id ≠ b.id := fun heq => hnew (heq ▸ List.mem_map_of_mem hc)
    rw [hdrained, if_neg hne]

/-! ## Post-pass -/

theorem mem_scanOp_defined {d : DefUse} {op : SsaOp} {v : VarId} :
    v ∈ (scanOp d op).defined.keys ↔ v ∈ d.defined.keys ∨ op.dst = some v := by
  simp only [scanOp]
  split
  · next dst hdst => rw [OrdSet.mem_insert, hdst, Option.some.injEq, or_comm, eq_comm]
  · next hdst => simp [hdst]

theorem mem_foldl_scanOp_defined {d : DefUse} {ops : List SsaOp} {v : VarId} :
    v ∈ (ops.foldl scanOp d).defined.keys ↔
      v ∈ d.defined.keys ∨ v ∈ ops.filterMap SsaOp.dst := by
  induction ops generalizing d with
  | nil => simp
  | cons op ops ih =>
    rw [List.foldl_cons, ih, mem_scanOp_defined]
    simp only [List.mem_filterMap, List.exists_mem_cons_iff, or_assoc]

/-- Of a variable that is never defined every read is kept. -/
theorem mem_foldl_scanOp_used {d : DefUse} {ops : List SsaOp} {v : VarId}
    (hnone : v ∉ (ops.foldl scanOp d).defined.keys) :
    v ∈ (ops.foldl scanOp d).used ↔ v ∈ d.used ∨ v ∈ ops.flatMap SsaOp.reads := by
  induction ops generalizing d with
  | nil => simp
  | cons op ops ih =>
    rw [List.foldl_cons] at hnone ⊢
    have hop : v ∉ (scanOp d op).defined.keys := fun hmem =>
      hnone (mem_foldl_scanOp_defined.mpr (Or.inl hmem))
    have hused : v ∈ (scanOp d op).used ↔ v ∈ d.used ∨ v ∈ op.reads := by
      rw [scanOp, List.mem_append, List.mem_filter]
      exact or_congr_right (and_iff_left (decide_eq_true hop))
    rw [ih hnone, hused, List.flatMap_cons, List.mem_append, or_assoc]

theorem mem_scanBlock_defined {d : DefUse} {b : SsaBlock} {v : VarId} :
    v ∈ (scanBlock d b).defined.keys ↔ v ∈ d.defined.keys ∨ v ∈ b.defs := by
  rw [scanBlock, mem_foldl_scanOp_defined, OrdSet.mem_foldl_insert, SsaBlock.defs,
    List.mem_append]
  tauto

theorem mem_foldl_scanBlock_defined {d : DefUse} {blocks : List SsaBlock} {v : VarId} :
    v ∈ (blocks.foldl scanBlock d).defined.keys ↔
      v ∈ d.defined.keys ∨ v ∈ blocks.flatMap SsaBlock.defs := by
  induction blocks generalizing d with
  | nil => simp
  | cons b blocks ih =>
    rw [List.foldl_cons, ih, mem_scanBlock_defined, List.flatMap_cons, List.mem_append, or_assoc]

/-- The operands of the blocks that are variables. -/
def opReads (blocks : List SsaBlock) : List VarId := blocks.flatMap fun b => b.ops.flatMap SsaOp.reads

theorem mem_foldl_scanBlock_used {d : DefUse} {blocks : List SsaBlock} {v : VarId}
    (hnone : v ∉ (blocks.foldl scanBlock d).defined.keys) :
    v ∈ (blocks.foldl scanBlock d).used ↔ v ∈ d.used ∨ v ∈ opReads blocks := by
  induction blocks generalizing d with
  | nil => simp [opReads]
  | cons b blocks ih =>
    rw [List.foldl_cons] at hnone ⊢
    have hb : v ∉ (scanBlock d b).defined.keys := fun hmem =>
      hnone (mem_foldl_scanBlock_defined.mpr (Or.inl hmem))
    have hused : v ∈ (scanBlock d b).used ↔ v ∈ d.used ∨ v ∈ b.ops.flatMap SsaOp.reads :=
      mem_foldl_scanOp_used hb
    rw [ih hnone, hused, opReads, opReads, List.flatMap_cons, List.mem_append, or_assoc]

theorem mem_undefinedVars {blocks : List SsaBlock} {v : VarId} :
    v ∈ undefinedVars blocks ↔ v ∈ opReads blocks ∧ v ∉ blocks.flatMap SsaBlock.defs := by
  have hnil : ∀ x : VarId, x ∉ (OrdSet.empty : OrdSet VarId).keys := fun _ => List.not_mem_nil
  rw [undefinedVars, OrdSet.mem_foldl_insert, List.mem_filter, or_iff_left (hnil v),
    decide_eq_true_eq]
  constructor
  · rintro ⟨hused, hnone⟩
    refine ⟨((mem_foldl_scanBlock_used hnone).mp hused).resolve_left List.not_mem_nil, fun hdef => ?_⟩
    exact hnone (mem_foldl_scanBlock_defined.mpr (Or.inr hdef))
  · rintro ⟨hread, hundef⟩
    have hnone : v ∉ (blocks.foldl scanBlock ⟨.empty, []⟩).defined.keys := fun hmem =>
      (mem_foldl_scanBlock_defined.mp hmem).elim (hnil v) hundef
    exact ⟨(mem_foldl_scanBlock_used hnone).mpr (Or.inr hread), hnone⟩

theorem filterMap_dst_syntheticOp (vars : List VarId) :
    (vars.map syntheticOp).filterMap SsaOp.dst = vars := by
  rw [List.filterMap_map]
  exact List.filterMap_some

theorem injectUndefined_defs (blocks : List SsaBlock) :
    (SsaFunction.mk (injectUndefined blocks)).defs.Perm
      (undefinedVars blocks ++ (SsaFunction.mk blocks).defs) := by
  cases blocks with
  | nil => exact List.Perm.refl _
  | cons entry rest =>
    simp only [injectUndefined, SsaFunction.defs, SsaBlock.defs, List.flatMap_cons,
      List.filterMap_append, filterMap_dst_syntheticOp, List.append_assoc]
    exact (List.perm_append_comm_assoc _ _ _)

theorem injectUndefined_reads (blocks : List SsaBlock) :
    (SsaFunction.mk (injectUndefined blocks)).reads = (SsaFunction.mk blocks).reads := by
  cases blocks with
  | nil => rfl
  | cons entry rest =>
    have hnone : ((undefinedVars (entry :: rest)).map syntheticOp).flatMap SsaOp.reads = [] := by
      rw [List.flatMap_eq_nil_iff]
      intro op hop
      obtain ⟨v, -, rfl⟩ := List.mem_map.mp hop
      rfl
    simp only [injectUndefined, SsaFunction.reads, SsaBlock.reads, List.flatMap_cons,
      List.flatMap_append, hnone, List.nil_append]

/-- The post-pass makes operands defined and keeps definitions unique. -/
theorem injectUndefined_ssaForm {blocks : List SsaBlock}
    (honce : (SsaFunction.mk blocks).defs.Nodup) :
    (SsaFunction.mk (injectUndefined blocks)).SsaForm ↔
      ∀ phi ∈ (SsaFunction.mk blocks).phis, ∀ v ∈ phi.args.map Prod.snd,
        v ∈ (SsaFunction.mk blocks).defs ∨ v ∈ opReads blocks := by
  have hdefs : ∀ v, v ∈ (SsaFunction.mk (injectUndefined blocks)).defs ↔
      v ∈ (SsaFunction.mk blocks).defs ∨ v ∈ opReads blocks := by
    intro v
    rw [(injectUndefined_defs blocks).mem_iff, List.mem_append, mem_undefinedVars]
    by_cases hv : v ∈ (SsaFunction.mk blocks).defs
    · exact ⟨fun _ => Or.inl hv, fun _ => Or.inr hv⟩
    · rw [or_iff_left hv, or_iff_right hv]
      exact and_iff_left hv
  constructor
  · intro h phi hphi v hv
    refine (hdefs v).mp (h.defined v ?_)
    rw [injectUndefined_reads]
    exact SsaFunction.mem_reads.mpr (Or.inl ⟨phi, hphi, hv⟩)
  · intro h
    constructor
    · rw [(injectUndefined_defs blocks).nodup_iff]
      refine List.Nodup.append (OrdMap.keys_nodup _) honce fun v hundef hdef => ?_
      exact (mem_undefinedVars.mp hundef).2 hdef
    · intro v hv
      rw [injectUndefined_reads] at hv
      rcases SsaFunction.mem_reads.mp hv with ⟨phi, hphi, hv⟩ | ⟨op, hop, hv⟩
      · exact (hdefs v).mpr (h phi hphi v hv)
      · obtain ⟨b, hb, hop⟩ := SsaFunction.mem_ops.mp hop
        refine (hdefs v).mpr (Or.inr ?_)
        exact List.mem_flatMap.mpr ⟨b, hb, List.mem_flatMap.mpr ⟨op, hop, hv⟩⟩

/-! ## build_ssa -/

section BuildSsa

variable {σ : Type} (B : CommonBuilder σ) (types : DecodedInst → List OpType)
  (unwritten : σ → VarId → Prop) (cfg : Cfg) (frameSize : Nat)

/-- Every version of an unwritten register that the builder gives to a phi is one
that it also gave to an operand. -/
def UnwrittenArgsRead : Prop :=
  ∀ w s, walkBlocks B types cfg frameSize = .ok w →
    B.sealPhis (cfgAdapter cfg) w.builder = .ok s →
    ∀ phi ∈ B.phis (cfgAdapter cfg) s, ∀ v ∈ phi.args.map Prod.snd, unwritten s v →
      v ∈ opReads w.blocks

variable {B types unwritten cfg frameSize}

/-- The blocks in front of the post-pass: the walk gives the definitions of the
operations, the builder those of the phis. -/
theorem drainPhis_spec {w : Walk σ} (hlawful : B.Lawful (cfgAdapter cfg) unwritten)
    (hperm : cfg.blockOrder.Perm cfg.blocks.keys)
    (hwalk : walkBlocks B types cfg frameSize = .ok w) (s : σ) :
    B.Calls (cfgAdapter cfg) (opDsts w.blocks) w.builder ∧
      (SsaFunction.mk (drainPhis B w.blocks s)).phis.Perm (B.phis (cfgAdapter cfg) s) ∧
      (SsaFunction.mk (drainPhis B w.blocks s)).defs.Perm
        ((B.phis (cfgAdapter cfg) s).map Phi.dst ++ opDsts w.blocks) ∧
      opReads (drainPhis B w.blocks s) = opReads w.blocks := by
  obtain ⟨hcalls, blocks, hblocks, hids, -⟩ := foldlM_walkBlock_spec
    (fun id hid => hperm.mem_iff.mp hid) CommonBuilder.Calls.new hwalk
  rw [List.nil_append] at hblocks
  rw [← hblocks] at hids
  have hnodup : (w.blocks.map SsaBlock.id).Nodup := by
    rw [hids]
    exact hperm.nodup_iff.mpr cfg.blocks.keys_nodup
  have hphis : (w.blocks.flatMap fun b => (B.takePhis s b.id).1).Perm
      (B.phis (cfgAdapter cfg) s) := by
    have hmap : (w.blocks.flatMap fun b => (B.takePhis s b.id).1) =
        cfg.blockOrder.flatMap fun id => (B.takePhis s id).1 := by
      rw [← hids, List.flatMap_map]
    rw [hmap]
    exact hperm.flatMap_right _
  rw [drainPhis_eq hlawful.drained hnodup]
  refine ⟨hcalls, ?_, ?_, ?_⟩
  · rw [SsaFunction.phis, List.flatMap_map]
    exact hphis
  · have hsplit := List.flatMap_append_perm w.blocks
      (fun b => (B.takePhis s b.id).1.map Phi.dst) fun b => b.ops.filterMap SsaOp.dst
    rw [SsaFunction.defs, List.flatMap_map]
    refine hsplit.symm.trans (List.Perm.append_right _ ?_)
    rw [← List.map_flatMap]
    exact hphis.map _
  · rw [opReads, List.flatMap_map]
    rfl

/-- What `build_ssa` returns is in SSA form exactly when every version of an
unwritten register that a phi takes is also an operand. -/
theorem buildSsa_ssaForm_iff {insts : List DecodedInst} {excHandlers : List ExcHandler}
    {bytecodes : List UInt8} {built : BuiltSsa}
    (hcfg : Cfg.build insts excHandlers bytecodes = .ok cfg)
    (hlawful : B.Lawful (cfgAdapter cfg) unwritten)
    (hbuild : buildSsa B types cfg frameSize = .ok built) :
    built.function.SsaForm ↔ UnwrittenArgsRead B types unwritten cfg frameSize := by
  have hperm := (reversePostOrder_of_build hcfg).perm
  obtain ⟨w, hwalk, hbuild⟩ := Loop.bind_eq_ok.mp hbuild
  obtain ⟨s, hseal, hbuild⟩ := Loop.bind_eq_ok.mp hbuild
  cases hbuild
  obtain ⟨hcalls, hphis, hdefs, hreads⟩ := drainPhis_spec hlawful hperm hwalk s
  have honce : (SsaFunction.mk (drainPhis B w.blocks s)).defs.Nodup := by
    rw [hdefs.nodup_iff]
    exact List.Nodup.append (hlawful.phis_once _ _ _ hcalls hseal) (hlawful.vars_nodup hcalls)
      (hlawful.phis_new _ _ _ hcalls hseal)
  rw [injectUndefined_ssaForm honce, hreads]
  constructor
  · intro h w' s' hwalk' hseal' phi hphi v hv hunwritten
    cases hwalk.symm.trans hwalk'
    cases hseal.symm.trans hseal'
    obtain ⟨hvars, hdsts⟩ := hlawful.unwritten_new _ _ _ hcalls hseal v hunwritten
    refine (h phi (hphis.mem_iff.mpr hphi) v hv).resolve_left fun hdef => ?_
    exact (List.mem_append.mp (hdefs.mem_iff.mp hdef)).elim hdsts hvars
  · intro h phi hphi v hv
    have hphi := hphis.mem_iff.mp hphi
    rw [hdefs.mem_iff, List.mem_append]
    rcases hlawful.args _ _ _ hcalls hseal phi hphi v hv with hvar | hdst | hunwritten
    · exact Or.inl (Or.inr hvar)
    · exact Or.inl (Or.inl hdst)
    · exact Or.inr (h w s hwalk hseal phi hphi v hv hunwritten)

end BuildSsa

/-- The operand types that the tables give the name of the instruction. -/
def OpcodeTables.opTypes (t : OpcodeTables) (inst : DecodedInst) : List OpType :=
  ((t.schemas.find? fun row => row.1 = inst.name).map Prod.snd).getD []

/-- `JmpTrue` on a register over `LoadConstNull r0`, and `Ret r0`. -/
def oneSidedCode (condition : UInt8) : List UInt8 := [144, 5, condition, 119, 0, 92, 0]

def oneSidedInsts (condition : Nat) : List DecodedInst :=
  [⟨0, 3, "JmpTrue", [.addr 5, .reg condition]⟩, ⟨3, 2, "LoadConstNull", [.reg 0]⟩,
    ⟨5, 2, "Ret", [.reg 0]⟩]

/-- Where the condition is `r0` itself, the version that the return can get from the
entry is an operand. -/
theorem buildSsa_ssaForm_iff_ownCondition : ∃ cfg built,
    Cfg.build (oneSidedInsts 0) [] (oneSidedCode 0) = .ok cfg ∧
    buildSsa phiPerBlock v95Tables.opTypes cfg 2 = .ok built ∧
    UnwrittenArgsRead phiPerBlock v95Tables.opTypes (fun s v => v ∈ s.unwritten) cfg 2 := by
  obtain ⟨cfg, hcfg, hform⟩ := @Loop.exists_of_okAnd _ _
    (Cfg.build (oneSidedInsts 0) [] (oneSidedCode 0))
    (fun cfg => (∀ b ∈ cfg.blocks.keys, ∀ p ∈ Renaming.allPredecessors (cfgAdapter cfg) b,
        p ∈ cfg.blocks.keys) ∧
      Loop.okAnd (buildSsa phiPerBlock v95Tables.opTypes cfg 2) fun built =>
        built.function.defs.Nodup ∧ ∀ v ∈ built.function.reads, v ∈ built.function.defs)
    (by decide)
  obtain ⟨hpreds, hform⟩ := of_decide_eq_true hform
  obtain ⟨built, hbuild, hform⟩ := Loop.exists_of_okAnd hform
  obtain ⟨honce, hdefined⟩ := of_decide_eq_true hform
  have hlawful := @phiPerBlock_lawful (cfgAdapter cfg) cfg.blocks.keys_nodup hpreds
  exact ⟨cfg, built, hcfg, hbuild, (buildSsa_ssaForm_iff hcfg hlawful hbuild).mp ⟨honce, hdefined⟩⟩

/-- Where it is `r1`, only the phi of the return takes it, and it has no definition. -/
theorem oneSided_not_ssaForm :
    decodeFunction v95Tables (oneSidedCode 1) = .ok (oneSidedInsts 1) ∧
    ∃ cfg built, Cfg.build (oneSidedInsts 1) [] (oneSidedCode 1) = .ok cfg ∧
      phiPerBlock.Lawful (cfgAdapter cfg) (fun s v => v ∈ s.unwritten) ∧
      buildSsa phiPerBlock v95Tables.opTypes cfg 2 = .ok built ∧ ¬ built.function.SsaForm := by
  obtain ⟨cfg, hcfg, hundefined⟩ := @Loop.exists_of_okAnd _ _
    (Cfg.build (oneSidedInsts 1) [] (oneSidedCode 1))
    (fun cfg => (∀ b ∈ cfg.blocks.keys, ∀ p ∈ Renaming.allPredecessors (cfgAdapter cfg) b,
        p ∈ cfg.blocks.keys) ∧
      Loop.okAnd (buildSsa phiPerBlock v95Tables.opTypes cfg 2) fun built =>
        ¬ ∀ v ∈ built.function.reads, v ∈ built.function.defs)
    (by decide)
  obtain ⟨hpreds, hundefined⟩ := of_decide_eq_true hundefined
  obtain ⟨built, hbuild, hundefined⟩ := Loop.exists_of_okAnd hundefined
  refine ⟨by decide +kernel, cfg, built, hcfg,
    @phiPerBlock_lawful (cfgAdapter cfg) cfg.blocks.keys_nodup hpreds, hbuild, fun h => ?_⟩
  exact of_decide_eq_true hundefined h.defined

end Hermes.Decompile
