-- SUMMARY: What SSA construction relies on of its builder, and a builder with a phi in every block that reads a register from outside.
import DroidsawHermes.Decompile.BuildSsa

/-!
# The contract of the builder

`CommonBuilder.Lawful` is what the builder promises about the versions it hands
out, over every sequence of calls. `phiPerBlock` keeps it: it numbers versions
with one counter, and looks for a register in the predecessors only when the phis
are sealed.
-/

namespace Hermes.Decompile

/-! ## The contract -/

namespace CommonBuilder

variable {σ : Type} (B : CommonBuilder σ) (g : SsaCfg)

/-- The states that calls of the first pass lead to, with the results of `new_var`. -/
inductive Calls : List VarId → σ → Prop
  | new : Calls [] B.new
  | read {vars s bid reg v s'} : Calls vars s → bid ∈ g.nodes →
      B.readVariable g s bid reg = .ok (v, s') → Calls vars s'
  | newVar {vars s reg v s'} : Calls vars s → B.newVar s reg = .ok (v, s') →
      Calls (vars ++ [v]) s'
  | write {vars s bid reg v} : Calls vars s → bid ∈ g.nodes → v ∈ vars →
      Calls vars (B.writeVariable s bid reg v)

/-- The phis of all blocks. -/
def phis (s : σ) : List Phi := g.nodes.flatMap fun b => (B.takePhis s b).1

/-- A version is handed out for one purpose. A phi argument is a definition, a phi,
or a version of a register that the path never writes: one that `unwritten` holds
of. Phis are drained. -/
structure Lawful (unwritten : σ → VarId → Prop) : Prop where
  newVar_new : ∀ vars s reg v s', B.Calls g vars s → B.newVar s reg = .ok (v, s') → v ∉ vars
  phis_once : ∀ vars s s', B.Calls g vars s → B.sealPhis g s = .ok s' →
    ((B.phis g s').map Phi.dst).Nodup
  phis_new : ∀ vars s s', B.Calls g vars s → B.sealPhis g s = .ok s' →
    ∀ v ∈ (B.phis g s').map Phi.dst, v ∉ vars
  args : ∀ vars s s', B.Calls g vars s → B.sealPhis g s = .ok s' →
    ∀ phi ∈ B.phis g s', ∀ v ∈ phi.args.map Prod.snd,
      v ∈ vars ∨ v ∈ (B.phis g s').map Phi.dst ∨ unwritten s' v
  unwritten_new : ∀ vars s s', B.Calls g vars s → B.sealPhis g s = .ok s' →
    ∀ v, unwritten s' v → v ∉ vars ∧ v ∉ (B.phis g s').map Phi.dst
  drained : ∀ s b c, (B.takePhis (B.takePhis s b).2 c).1 = if c = b then [] else (B.takePhis s c).1

variable {B g}

theorem Lawful.vars_nodup {unwritten : σ → VarId → Prop} (h : B.Lawful g unwritten)
    {vars : List VarId} {s : σ} (hcalls : B.Calls g vars s) : vars.Nodup := by
  induction hcalls with
  | new => exact List.nodup_nil
  | read _ _ _ ih => exact ih
  | @newVar vars s reg v s' hcalls hnew ih =>
    refine List.nodup_append.mpr ⟨ih, List.nodup_singleton v, fun x hx y hy heq => ?_⟩
    rw [List.mem_singleton] at hy
    exact h.newVar_new vars s reg v s' hcalls hnew (hy ▸ heq ▸ hx)
  | write _ _ _ ih => exact ih

end CommonBuilder

/-! ## One phi for each block and register -/

structure Renaming where
  next : Nat
  current : List ((BlockId × Nat) × VarId)
  phis : List (BlockId × Phi)
  /-- The versions that start a path on which nothing writes the register. -/
  unwritten : List VarId

namespace Renaming

def allPredecessors (g : SsaCfg) (b : BlockId) : List BlockId :=
  g.predecessors b ++ g.excPredecessors b

/-- The version of a register in a block. A block that has none yet gets a phi,
unless nothing comes before it. -/
def readVariable (g : SsaCfg) (s : Renaming) (b : BlockId) (reg : Nat) : VarId × Renaming :=
  match s.current.lookup (b, reg) with
  | some v => (v, s)
  | none =>
    let v : VarId := ⟨reg, s.next⟩
    let current := ((b, reg), v) :: s.current
    if allPredecessors g b = [] then (v, ⟨s.next + 1, current, s.phis, s.unwritten ++ [v]⟩)
    else (v, ⟨s.next + 1, current, s.phis ++ [(b, ⟨v, []⟩)], s.unwritten⟩)

/-- The arguments so far, with the one of a predecessor. -/
def readArg (g : SsaCfg) (reg : Nat) (acc : List (BlockId × VarId) × Renaming) (p : BlockId) :
    List (BlockId × VarId) × Renaming :=
  let (v, s) := readVariable g acc.2 p reg
  (acc.1 ++ [(p, v)], s)

def setArgs (s : Renaming) (i : Nat) (args : List (BlockId × VarId)) : Renaming :=
  { s with phis := s.phis.modify i fun x => (x.1, ⟨x.2.dst, args⟩) }

/-- The phis from `i` on get their arguments, which may place further phis. -/
def sealFrom (g : SsaCfg) : Nat → Nat → Renaming → Except HermesError Renaming
  | 0, _, _ => .error (.budget "ssa-seal-phis")
  | fuel + 1, i, s =>
    match s.phis[i]? with
    | none => .ok s
    | some x =>
      let (args, s') := (allPredecessors g x.1).foldl (readArg g x.2.dst.reg) ([], s)
      sealFrom g fuel (i + 1) (s'.setArgs i args)

/-- Every block has at most one phi for each register. -/
def sealFuel (g : SsaCfg) (s : Renaming) : Nat := g.nodes.length * s.next + 1

end Renaming

def phiPerBlock : CommonBuilder Renaming where
  new := ⟨0, [], [], []⟩
  readVariable g s b reg := .ok (s.readVariable g b reg)
  newVar s reg := .ok (⟨reg, s.next⟩, { s with next := s.next + 1 })
  writeVariable s b reg v := { s with current := ((b, reg), v) :: s.current }
  sealPhis g s := s.sealFrom g (s.sealFuel g) 0
  takePhis s b := ((s.phis.filter (·.1 = b)).map Prod.snd,
    { s with phis := s.phis.filter (·.1 ≠ b) })

namespace Renaming

/-- All versions handed out. -/
def names (vars : List VarId) (s : Renaming) : List VarId :=
  vars ++ (s.phis.map fun x => x.2.dst) ++ s.unwritten

structure Inv (g : SsaCfg) (vars : List VarId) (s : Renaming) : Prop where
  nodup : (s.names vars).Nodup
  below : ∀ v ∈ s.names vars, v.ver < s.next
  current : ∀ x ∈ s.current, x.2 ∈ s.names vars
  args : ∀ x ∈ s.phis, ∀ v ∈ x.2.args.map Prod.snd, v ∈ s.names vars
  blocks : ∀ x ∈ s.phis, x.1 ∈ g.nodes

variable {g : SsaCfg} {vars : List VarId} {s : Renaming}

/-- One more version. -/
theorem Inv.grow {vars' : List VarId} {s' : Renaming} {v : VarId} (h : Inv g vars s)
    (hnames : (s'.names vars').Perm (v :: s.names vars)) (hver : v.ver = s.next)
    (hnext : s'.next = s.next + 1) (hcurrent : ∀ x ∈ s'.current, x ∈ s.current ∨ x.2 = v)
    (hphis : ∀ x ∈ s'.phis, x ∈ s.phis ∨ x.1 ∈ g.nodes ∧ x.2.args = []) : Inv g vars' s' := by
  have hmem : ∀ x, x ∈ s'.names vars' ↔ x = v ∨ x ∈ s.names vars := fun x =>
    hnames.mem_iff.trans List.mem_cons
  refine ⟨?_, fun x hx => ?_, fun x hx => ?_, fun x hx y hy => ?_, fun x hx => ?_⟩
  · refine hnames.nodup_iff.mpr (List.nodup_cons.mpr ⟨fun hold => ?_, h.nodup⟩)
    have hlt := h.below v hold
    omega
  · rw [hnext]
    rcases (hmem x).mp hx with rfl | hx
    · omega
    · exact (h.below x hx).trans (Nat.lt_succ_self _)
  · rcases hcurrent x hx with hx | hx
    · exact (hmem _).mpr (Or.inr (h.current x hx))
    · exact (hmem _).mpr (Or.inl hx)
  · rcases hphis x hx with hx | ⟨-, hargs⟩
    · exact (hmem _).mpr (Or.inr (h.args x hx y hy))
    · rw [hargs] at hy
      cases hy
  · exact (hphis x hx).elim (h.blocks x) And.left

theorem Inv.read (h : Inv g vars s) {b : BlockId} (hb : b ∈ g.nodes) (reg : Nat) :
    Inv g vars (s.readVariable g b reg).2 ∧
      (s.readVariable g b reg).1 ∈ (s.readVariable g b reg).2.names vars ∧
      ∀ v ∈ s.names vars, v ∈ (s.readVariable g b reg).2.names vars := by
  rw [readVariable]
  split
  · next v hlookup =>
    obtain ⟨before, after, hsplit, -⟩ := List.lookup_eq_some_iff.mp hlookup
    have hmem : ((b, reg), v) ∈ s.current := by
      rw [hsplit]
      exact List.mem_append_right _ List.mem_cons_self
    exact ⟨h, h.current _ hmem, fun _ => id⟩
  · dsimp only
    split
    · have hnames : (Renaming.names vars ⟨s.next + 1, ((b, reg), ⟨reg, s.next⟩) :: s.current,
          s.phis, s.unwritten ++ [⟨reg, s.next⟩]⟩).Perm (⟨reg, s.next⟩ :: s.names vars) := by
        rw [names, ← List.append_assoc]
        exact List.perm_append_singleton _ _
      refine ⟨h.grow hnames rfl rfl ?_ fun x hx => Or.inl hx, ?_, fun v hv => ?_⟩
      · intro x hx
        rcases List.mem_cons.mp hx with rfl | hx
        · exact Or.inr rfl
        · exact Or.inl hx
      · exact hnames.mem_iff.mpr List.mem_cons_self
      · exact hnames.mem_iff.mpr (List.mem_cons_of_mem _ hv)
    · have hnames : (Renaming.names vars ⟨s.next + 1, ((b, reg), ⟨reg, s.next⟩) :: s.current,
          s.phis ++ [(b, ⟨⟨reg, s.next⟩, []⟩)], s.unwritten⟩).Perm
          (⟨reg, s.next⟩ :: s.names vars) := by
        rw [names, List.map_append, ← List.append_assoc, List.append_assoc]
        exact List.perm_middle
      refine ⟨h.grow hnames rfl rfl ?_ fun x hx => ?_, ?_, fun v hv => ?_⟩
      · intro x hx
        rcases List.mem_cons.mp hx with rfl | hx
        · exact Or.inr rfl
        · exact Or.inl hx
      · refine (List.mem_append.mp hx).imp_right fun hx => ?_
        rw [List.mem_singleton.mp hx]
        exact ⟨hb, rfl⟩
      · exact hnames.mem_iff.mpr List.mem_cons_self
      · exact hnames.mem_iff.mpr (List.mem_cons_of_mem _ hv)

theorem Inv.readArgs {reg : Nat} {preds : List BlockId} (hpreds : ∀ p ∈ preds, p ∈ g.nodes)
    {acc : List (BlockId × VarId) × Renaming} (h : Inv g vars acc.2)
    (hargs : ∀ v ∈ acc.1.map Prod.snd, v ∈ acc.2.names vars) :
    Inv g vars (preds.foldl (readArg g reg) acc).2 ∧
      ∀ v ∈ (preds.foldl (readArg g reg) acc).1.map Prod.snd,
        v ∈ (preds.foldl (readArg g reg) acc).2.names vars := by
  induction preds generalizing acc with
  | nil => exact ⟨h, hargs⟩
  | cons p preds ih =>
    obtain ⟨hp, hpreds⟩ := List.forall_mem_cons.mp hpreds
    obtain ⟨hinv, hnew, hmono⟩ := h.read hp reg
    refine ih hpreds hinv fun v hv => ?_
    simp only [readArg, List.map_append, List.mem_append] at hv
    rcases hv with hv | hv
    · exact hmono v (hargs v hv)
    · rw [List.mem_singleton.mp hv]
      exact hnew

theorem Inv.setArgs (h : Inv g vars s) (i : Nat) {args : List (BlockId × VarId)}
    (hargs : ∀ v ∈ args.map Prod.snd, v ∈ s.names vars) : Inv g vars (s.setArgs i args) := by
  have hdsts : ((s.setArgs i args).phis.map fun x => x.2.dst) = s.phis.map fun x => x.2.dst := by
    apply List.ext_getElem?
    intro j
    simp only [Renaming.setArgs, List.getElem?_map, List.getElem?_modify, Option.map_eq_map,
      Option.map_map]
    congr 1
    funext x
    simp only [Function.comp_apply]
    split <;> rfl
  have hnames : (s.setArgs i args).names vars = s.names vars := by rw [names, hdsts]; rfl
  have hphis : ∀ x ∈ (s.setArgs i args).phis, ∃ y ∈ s.phis, x.1 = y.1 ∧
      (x.2.args = y.2.args ∨ x.2.args = args) := by
    intro x hx
    obtain ⟨j, hj⟩ := List.mem_iff_getElem?.mp hx
    simp only [Renaming.setArgs, List.getElem?_modify, Option.map_eq_map,
      Option.map_eq_some_iff] at hj
    obtain ⟨y, hy, rfl⟩ := hj
    refine ⟨y, List.mem_of_getElem? hy, ?_⟩
    split
    · exact ⟨rfl, Or.inr rfl⟩
    · exact ⟨rfl, Or.inl rfl⟩
  refine ⟨hnames ▸ h.nodup, hnames ▸ h.below, hnames ▸ h.current, fun x hx v hv => ?_,
    fun x hx => ?_⟩
  · obtain ⟨y, hy, -, heq | heq⟩ := hphis x hx
    · exact hnames ▸ h.args y hy v (heq ▸ hv)
    · exact hnames ▸ hargs v (heq ▸ hv)
  · obtain ⟨y, hy, heq, -⟩ := hphis x hx
    exact heq ▸ h.blocks y hy

theorem Inv.sealFrom (hpreds : ∀ b ∈ g.nodes, ∀ p ∈ allPredecessors g b, p ∈ g.nodes)
    {fuel i : Nat} {s' : Renaming} (h : Inv g vars s) (hseal : sealFrom g fuel i s = .ok s') :
    Inv g vars s' := by
  induction fuel generalizing i s with
  | zero => cases hseal
  | succ fuel ih =>
    rw [Renaming.sealFrom] at hseal
    split at hseal
    · cases hseal
      exact h
    · next x hx =>
      have hx := h.blocks x (List.mem_of_getElem? hx)
      obtain ⟨hinv, hargs⟩ := @Inv.readArgs g vars x.2.dst.reg _ (hpreds x.1 hx) ([], s) h (by simp)
      exact ih (hinv.setArgs i hargs) hseal

theorem Inv.new : Inv g [] ⟨0, [], [], []⟩ :=
  ⟨List.nodup_nil, by simp [names], by simp, by simp, by simp⟩

theorem Inv.calls (h : phiPerBlock.Calls g vars s) : Inv g vars s := by
  induction h with
  | new => exact Inv.new
  | @read vars s bid reg v s' _ hbid hread ih =>
    have hstate : (s.readVariable g bid reg).2 = s' := congrArg Prod.snd (Except.ok.inj hread)
    exact hstate ▸ (ih.read hbid reg).1
  | @newVar vars s reg v s' _ hnew ih =>
    cases hnew
    have hnames : (Renaming.names (vars ++ [⟨reg, s.next⟩]) { s with next := s.next + 1 }).Perm
        (⟨reg, s.next⟩ :: s.names vars) := by
      rw [names, names, List.append_assoc, List.append_assoc, List.append_assoc]
      exact List.perm_middle
    exact ih.grow hnames rfl rfl (fun x hx => Or.inl hx) fun x hx => Or.inl hx
  | @write vars s bid reg v _ _ hv ih =>
    refine ⟨ih.nodup, ih.below, fun x hx => ?_, ih.args, ih.blocks⟩
    rcases List.mem_cons.mp hx with rfl | hx
    · exact List.mem_append_left _ (List.mem_append_left _ hv)
    · exact ih.current x hx

/-- The phis of the blocks are all phis. -/
theorem Inv.mem_phis (h : Inv g vars s) {phi : Phi} :
    phi ∈ phiPerBlock.phis g s ↔ ∃ b, (b, phi) ∈ s.phis := by
  simp only [CommonBuilder.phis, phiPerBlock, List.mem_flatMap, List.mem_map, List.mem_filter,
    decide_eq_true_eq]
  constructor
  · rintro ⟨b, -, ⟨b', phi⟩, ⟨hmem, -⟩, rfl⟩
    exact ⟨b', hmem⟩
  · rintro ⟨b, hmem⟩
    exact ⟨b, h.blocks _ hmem, (b, phi), ⟨hmem, rfl⟩, rfl⟩

theorem Inv.mem_dsts (h : Inv g vars s) {v : VarId} :
    v ∈ (phiPerBlock.phis g s).map Phi.dst ↔ v ∈ s.phis.map fun x => x.2.dst := by
  simp only [List.mem_map, h.mem_phis]
  constructor
  · rintro ⟨phi, ⟨b, hmem⟩, rfl⟩
    exact ⟨(b, phi), hmem, rfl⟩
  · rintro ⟨⟨b, phi⟩, hmem, rfl⟩
    exact ⟨phi, ⟨b, hmem⟩, rfl⟩

theorem Inv.phis_once (h : Inv g vars s) (hnodes : g.nodes.Nodup) :
    ((phiPerBlock.phis g s).map Phi.dst).Nodup := by
  have hdsts : (s.phis.map fun x => x.2.dst).Nodup :=
    (List.nodup_append.mp (List.nodup_append.mp h.nodup).1).2.1
  rw [CommonBuilder.phis, List.map_flatMap, List.nodup_flatMap]
  refine ⟨fun b _ => ?_, hnodes.imp fun {b c} hne => ?_⟩
  · simp only [phiPerBlock, List.map_map]
    exact (List.filter_sublist.map _).nodup hdsts
  · intro v hv hv'
    simp only [phiPerBlock, List.map_map, List.mem_map, List.mem_filter, decide_eq_true_eq,
      Function.comp_apply] at hv hv'
    obtain ⟨x, ⟨hx, rfl⟩, rfl⟩ := hv
    obtain ⟨y, ⟨hy, rfl⟩, heq⟩ := hv'
    exact hne (congrArg Prod.fst (List.inj_on_of_nodup_map hdsts hx hy heq.symm))

end Renaming

theorem phiPerBlock_lawful {g : SsaCfg} (hnodes : g.nodes.Nodup)
    (hpreds : ∀ b ∈ g.nodes, ∀ p ∈ Renaming.allPredecessors g b, p ∈ g.nodes) :
    phiPerBlock.Lawful g fun s v => v ∈ s.unwritten := by
  have hsealed : ∀ vars s s', phiPerBlock.Calls g vars s → phiPerBlock.sealPhis g s = .ok s' →
      Renaming.Inv g vars s' := fun vars s s' hcalls hseal =>
    (Renaming.Inv.calls hcalls).sealFrom hpreds hseal
  refine ⟨fun vars s reg v s' hcalls hnew hv => ?_, fun vars s s' hcalls hseal => ?_,
    fun vars s s' hcalls hseal v hv hvar => ?_, fun vars s s' hcalls hseal phi hphi v hv => ?_,
    fun vars s s' hcalls hseal v hv => ?_, fun s b c => ?_⟩
  · cases hnew
    have hbelow := (Renaming.Inv.calls hcalls).below _
      (List.mem_append_left _ (List.mem_append_left _ hv))
    exact Nat.lt_irrefl _ hbelow
  · exact (hsealed vars s s' hcalls hseal).phis_once hnodes
  · have hinv := hsealed vars s s' hcalls hseal
    have hdisjoint := List.disjoint_of_nodup_append (List.nodup_append.mp hinv.nodup).1
    exact hdisjoint hvar (hinv.mem_dsts.mp hv)
  · have hinv := hsealed vars s s' hcalls hseal
    obtain ⟨b, hmem⟩ := hinv.mem_phis.mp hphi
    rcases List.mem_append.mp (hinv.args _ hmem v hv) with hmem | hunwritten
    · exact (List.mem_append.mp hmem).imp_right fun hdst => Or.inl (hinv.mem_dsts.mpr hdst)
    · exact Or.inr (Or.inr hunwritten)
  · have hinv := hsealed vars s s' hcalls hseal
    have hdisjoint := List.disjoint_of_nodup_append hinv.nodup
    refine ⟨fun hvar => ?_, fun hdst => ?_⟩
    · exact hdisjoint (List.mem_append_left _ hvar) hv
    · exact hdisjoint (List.mem_append_right _ (hinv.mem_dsts.mp hdst)) hv
  · simp only [phiPerBlock, List.filter_filter]
    split
    · next heq => simp [heq]
    · next hne =>
      congr 1
      refine List.filter_congr fun x _ => ?_
      by_cases hx : x.1 = c
      · simp [hx, hne]
      · simp [hx]

end Hermes.Decompile
