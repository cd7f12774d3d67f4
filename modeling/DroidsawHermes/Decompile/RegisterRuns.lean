-- SUMMARY: A function whose variables are versions of registers runs like the program on the registers, and is strict.
import DroidsawHermes.Decompile.FlowRuns
import DroidsawHermes.Decompile.BuildSsa

/-!
# Versions and registers

At every point a register has a current version. A function that reads current versions only,
and whose phis take over those of the predecessors, runs like the program on the registers. The
variables of the post-pass stand for registers that nothing has written.
-/

namespace Hermes.Decompile

/-! ## Current versions -/

def VarId.register (v : VarId) : VarId := ⟨v.reg, 0⟩

/-- The operation of the program on the registers. -/
def SsaOp.atRegisters (op : SsaOp) : SsaOp :=
  { op with
    dst := op.dst.map VarId.register
    operands := op.operands.map (SsaOperand.mapVar VarId.register) }

/-- The post-pass made the operation. -/
def SsaOp.isSynthetic (synth : List VarId) (op : SsaOp) : Bool :=
  op.dst.any synth.contains

/-- The program on the registers. -/
def SsaFunction.registers (synth : List VarId) (f : SsaFunction) : SsaFunction :=
  ⟨f.blocks.map fun b =>
    { b with
      phis := []
      ops := (b.ops.filter fun op => !op.isSynthetic synth).map SsaOp.atRegisters }⟩

/-- The versions behind an operation. -/
def writeVersion (synth : List VarId) (current : Nat → Option VarId) (op : SsaOp) :
    Nat → Option VarId :=
  match op.dst with
  | some v => if v ∈ synth then current else Function.update current v.reg (some v)
  | none => current

def versionsBehind (synth : List VarId) (current : Nat → Option VarId) (ops : List SsaOp) :
    Nat → Option VarId := ops.foldl (writeVersion synth) current

/-- A version of a register carries its number. -/
def OwnVersions (current : Nat → Option VarId) : Prop := ∀ r v, current r = some v → v.reg = r

/-- `versions` has the versions on entering each block. -/
structure SsaFunction.Renamed (f : SsaFunction) (synth : List VarId)
    (versions : BlockId → Nat → Option VarId) : Prop where
  own : ∀ id, OwnVersions (versions id)
  reads : ∀ id b i op, f.block? id = some b → b.ops[i]? = some op → ∀ v ∈ op.reads,
    versionsBehind synth (versions id) (b.ops.take i) v.reg = some v
  phi : ∀ id b phi, f.block? id = some b → phi ∈ b.phis → versions id phi.dst.reg = some phi.dst
  arg : ∀ p b' id b phi v, f.block? p = some b' → id ∈ b'.successors → f.block? id = some b →
    phi ∈ b.phis → (p, v) ∈ phi.args →
    versionsBehind synth (versions p) b'.ops phi.dst.reg = some v
  covered : ∀ p b' id b phi, f.block? p = some b' → id ∈ b'.successors → f.block? id = some b →
    phi ∈ b.phis → p ∈ phi.args.map Prod.fst
  through : ∀ p b' id b r v, f.block? p = some b' → id ∈ b'.successors → f.block? id = some b →
    versions id r = some v → v ∉ b.phis.map Phi.dst →
    versionsBehind synth (versions p) b'.ops r = some v
  undefined : ∀ op ∈ f.ops, ∀ v ∈ synth, op.dst = some v → op = syntheticOp v
  undefined_phi : ∀ phi ∈ f.phis, phi.dst ∉ synth

section Versions

variable {synth : List VarId} {current : Nat → Option VarId}

theorem OwnVersions.write (h : OwnVersions current) (op : SsaOp) :
    OwnVersions (writeVersion synth current op) := by
  intro r v hv
  cases hdst : op.dst with
  | none =>
    rw [writeVersion, hdst] at hv
    exact h r v hv
  | some w =>
    simp only [writeVersion, hdst] at hv
    by_cases hw : w ∈ synth
    · rw [if_pos hw] at hv
      exact h r v hv
    rw [if_neg hw] at hv
    by_cases hr : r = w.reg
    · subst hr
      rw [Function.update_self] at hv
      rw [Option.some.inj hv]
    · rw [Function.update_of_ne hr] at hv
      exact h r v hv

theorem OwnVersions.behind (h : OwnVersions current) (ops : List SsaOp) :
    OwnVersions (versionsBehind synth current ops) := by
  induction ops generalizing current with
  | nil => exact h
  | cons op ops ih => exact ih (h.write op)

theorem versionsBehind_take_succ {ops : List SsaOp} {i : Nat} {op : SsaOp}
    (hop : ops[i]? = some op) : versionsBehind synth current (ops.take (i + 1)) =
      writeVersion synth (versionsBehind synth current (ops.take i)) op := by
  rw [List.take_add_one, hop, Option.toList_some, versionsBehind, List.foldl_append]
  rfl

theorem SsaOp.isSynthetic_iff {op : SsaOp} :
    op.isSynthetic synth = true ↔ ∃ v ∈ synth, op.dst = some v := by
  cases hdst : op.dst with
  | none => simp [isSynthetic, hdst]
  | some v => simp [isSynthetic, hdst]

theorem SsaOp.reads_atRegisters (op : SsaOp) :
    op.atRegisters.reads = op.reads.map VarId.register :=
  op.reads_mapVar VarId.register

end Versions

/-! ## Runs on registers -/

section Runs

variable {Value σ Event : Type} {m : Machine Value σ Event} {undef : Value}

/-- The synthetic loads give the value of registers that nothing has written, and do nothing
else. -/
def LoadsUndefined (m : Machine Value σ Event) (undef : Value) : Prop :=
  ∀ v s, (m.exec (syntheticOp v) [] s).value = undef ∧ (m.exec (syntheticOp v) [] s).events = [] ∧
    (m.exec (syntheticOp v) [] s).stops = false ∧ m.same s (m.exec (syntheticOp v) [] s).state

/-- The current versions have the values of their registers. -/
structure Holds (undef : Value) (synth : List VarId) (current : Nat → Option VarId)
    (values regs : VarId → Value) : Prop where
  current : ∀ r v, current r = some v → values v = regs ⟨r, 0⟩
  undefined : ∀ v ∈ synth, values v = undef

variable {synth : List VarId} {current : Nat → Option VarId} {values regs : VarId → Value}

theorem Holds.reads (h : Holds undef synth current values regs) {op : SsaOp}
    (hreads : ∀ v ∈ op.reads, current v.reg = some v) :
    op.atRegisters.reads.map regs = op.reads.map values := by
  rw [op.reads_atRegisters, List.map_map]
  exact List.map_congr_left fun v hv => (h.current v.reg v (hreads v hv)).symm

/-- An operation writes the new version and the register. -/
theorem Holds.write (h : Holds undef synth current values regs) (hown : OwnVersions current)
    {op : SsaOp} (hop : op.isSynthetic synth = false) (value : Value) :
    Holds undef synth (writeVersion synth current op) (Machine.assign values op.dst value)
      (Machine.assign regs op.atRegisters.dst value) := by
  cases hdst : op.dst with
  | none =>
    simpa only [writeVersion, hdst, SsaOp.atRegisters, Option.map_none, Machine.assign] using h
  | some w =>
    have hw : w ∉ synth := by
      intro hmem
      rw [SsaOp.isSynthetic_iff.mpr ⟨w, hmem, hdst⟩] at hop
      cases hop
    simp only [writeVersion, hdst, if_neg hw, SsaOp.atRegisters, Option.map_some, Machine.assign]
    constructor
    · intro r v hv
      by_cases hr : r = w.reg
      · subst hr
        rw [Function.update_self] at hv
        obtain rfl := Option.some.inj hv
        rw [Function.update_self]
        exact (Function.update_self w.register value regs).symm
      · rw [Function.update_of_ne hr] at hv
        have hne : v ≠ w := by
          rintro rfl
          exact hr (hown r v hv).symm
        have hne' : (⟨r, 0⟩ : VarId) ≠ w.register := fun heq => hr (congrArg VarId.reg heq)
        rw [Function.update_of_ne hne, Function.update_of_ne hne']
        exact h.current r v hv
    · intro v hv
      have hne : v ≠ w := fun heq => hw (heq ▸ hv)
      rw [Function.update_of_ne hne]
      exact h.undefined v hv

variable {f : SsaFunction} {versions : BlockId → Nat → Option VarId}

theorem block?_registers (synth : List VarId) (f : SsaFunction) (id : BlockId) :
    (f.registers synth).block? id = (f.block? id).map fun b =>
      { b with
        phis := []
        ops := (b.ops.filter fun op => !op.isSynthetic synth).map SsaOp.atRegisters } := by
  rw [SsaFunction.registers, SsaFunction.block?, SsaFunction.block?, ← List.map_reverse,
    List.find?_map]
  rfl

/-- Where phis find the versions of the predecessor, the versions of the block have the values
of their registers. -/
theorem Holds.enter {b : SsaBlock} {pred : BlockId} {behind : Nat → Option VarId}
    (h : Holds undef synth behind values regs) (hown : OwnVersions current)
    (hphi : ∀ phi ∈ b.phis, current phi.dst.reg = some phi.dst ∧ phi.dst ∉ synth ∧
      pred ∈ phi.args.map Prod.fst ∧
      ∀ v, (pred, v) ∈ phi.args → behind phi.dst.reg = some v)
    (hthrough : ∀ r v, current r = some v → v ∉ b.phis.map Phi.dst → behind r = some v) :
    Holds undef synth current (enterPhis b.phis pred values) (enterPhis [] pred regs) := by
  have hregs : enterPhis [] pred regs = regs := rfl
  rw [hregs]
  have hkept : ∀ v, v ∉ b.phis.map Phi.dst → enterPhis b.phis pred values v = values v := by
    intro v hv
    have hnone : b.phis.find? (fun phi => phi.dst = v) = none :=
      List.find?_eq_none.mpr fun phi hphi hdst =>
        hv (List.mem_map.mpr ⟨phi, hphi, by simpa using hdst⟩)
    simp [enterPhis, hnone]
  constructor
  · intro r v hv
    by_cases hmem : v ∈ b.phis.map Phi.dst
    · have hsome : (b.phis.find? fun phi => phi.dst = v).isSome := by
        obtain ⟨phi, hphi, hdst⟩ := List.mem_map.mp hmem
        exact List.find?_isSome.mpr ⟨phi, hphi, by simpa using hdst⟩
      obtain ⟨phi, hfind⟩ := Option.isSome_iff_exists.mp hsome
      have hdst : phi.dst = v := by simpa using List.find?_some hfind
      obtain ⟨-, -, hcovered, harg⟩ := hphi phi (List.mem_of_find?_eq_some hfind)
      have hsome' : (phi.args.find? fun arg => arg.1 = pred).isSome := by
        obtain ⟨arg, harg, heq⟩ := List.mem_map.mp hcovered
        exact List.find?_isSome.mpr ⟨arg, harg, by simpa using heq⟩
      obtain ⟨⟨p, u⟩, hfind'⟩ := Option.isSome_iff_exists.mp hsome'
      have hp : p = pred := by simpa using List.find?_some hfind'
      subst hp
      have hbehind := harg u (List.mem_of_find?_eq_some hfind')
      have hr : phi.dst.reg = r := hdst ▸ hown r v hv
      have hvalue : enterPhis b.phis p values v = values u := by simp [enterPhis, hfind, hfind']
      rw [hvalue]
      exact h.current r u (hr ▸ hbehind)
    · rw [hkept v hmem]
      exact h.current r v (hthrough r v hv hmem)
  · intro v hv
    have hmem : v ∉ b.phis.map Phi.dst := by
      intro hmem
      obtain ⟨phi, hphi', rfl⟩ := List.mem_map.mp hmem
      exact (hphi phi hphi').2.1 hv
    rw [hkept v hmem]
    exact h.undefined v hv

end Runs

/-! ## Strictness -/

/-- The synthetic loads come first, and the versions in the beginning are theirs, or those of
phis, or never defined. -/
structure SsaFunction.Started (f : SsaFunction) (pred entry : BlockId) (synth : List VarId)
    (versions : BlockId → Nat → Option VarId) : Prop where
  preamble : ∀ b, f.block? entry = some b → ∃ rest, b.ops = synth.map syntheticOp ++ rest
  start : ∀ b r v, f.block? entry = some b → versions entry r = some v →
    v ∈ b.phis.map Phi.dst ∨ v ∈ synth ∨ v ∉ f.defs
  args : ∀ b, f.block? entry = some b → ∀ phi ∈ b.phis, pred ∉ phi.args.map Prod.fst

section Strict

variable {f : SsaFunction} {pred entry : BlockId} {synth : List VarId}
  {versions : BlockId → Nat → Option VarId}

theorem FlowDefs.mem_defs {p : Point} {v : VarId} (h : FlowDefs f p v) : v ∈ f.defs := by
  cases h with
  | phi hblock hphi =>
    exact SsaFunction.mem_defs.mpr (Or.inl ⟨_, SsaFunction.mem_phis_at hblock hphi, rfl⟩)
  | op hblock hop hdst =>
    exact SsaFunction.mem_defs.mpr (Or.inr ⟨_, SsaFunction.mem_ops_at hblock hop, hdst⟩)

/-- A path that does not define the variable of a synthetic load is still in front of it. -/
theorem SsaFunction.Started.undefined_synth (hs : f.Started pred entry synth versions) {j : Nat}
    {v : VarId} (hj : synth[j]? = some v) {p : Point} (h : (f.flow pred entry).Undefined v p) :
    p = .start ∨ ∃ i ≤ j, p = .mid entry i := by
  have hlt : j < synth.length := (List.getElem?_eq_some_iff.mp hj).1
  induction h with
  | start _ => exact Or.inl rfl
  | @step p q _ hstep hdef ih =>
    right
    cases hstep with
    | enter _ => exact ⟨0, Nat.zero_le j, rfl⟩
    | @op id b i hblock hi =>
      rcases ih with heq | ⟨i', hi', heq⟩
      · cases heq
      · cases heq
        obtain ⟨rest, hops⟩ := hs.preamble b hblock
        refine ⟨i + 1, ?_, rfl⟩
        rcases Nat.lt_or_eq_of_le hi' with hless | rfl
        · exact hless
        · have hop : b.ops[i]? = some (syntheticOp v) := by
            rw [hops, List.getElem?_append_left (by simpa using hlt), List.getElem?_map, hj]
            rfl
          exact absurd (FlowDefs.op hblock hop rfl) hdef
    | @jump id b succ b' hblock _ _ =>
      rcases ih with heq | ⟨i', hi', heq⟩
      · cases heq
      · cases heq
        obtain ⟨rest, hops⟩ := hs.preamble b hblock
        have hlen := congrArg List.length hops
        simp only [List.length_append, List.length_map] at hlen
        omega

/-- A version that is current on a path that does not define it is never defined. -/
theorem SsaFunction.Renamed.never (hf : f.Renamed synth versions)
    (hs : f.Started pred entry synth versions) {v : VarId} (hv : v ∉ synth) {p : Point}
    (h : (f.flow pred entry).Undefined v p) : ∀ id i b, p = .mid id i → f.block? id = some b →
      versionsBehind synth (versions id) (b.ops.take i) v.reg = some v →
      (f.flow pred entry).Never v := by
  induction h with
  | start _ => exact fun id i b heq => by cases heq
  | @step p q _ hstep hdef ih =>
    intro id i b heq hblock hcurrent
    subst heq
    have hphis : i = 0 → v ∉ b.phis.map Phi.dst := by
      rintro rfl hmem
      obtain ⟨phi, hphi, rfl⟩ := List.mem_map.mp hmem
      exact hdef (FlowDefs.phi hblock hphi)
    cases hstep with
    | enter _ =>
      intro p hp
      rcases hs.start b v.reg v hblock hcurrent with hmem | hmem | hmem
      · exact hphis rfl hmem
      · exact hv hmem
      · exact hmem hp.mem_defs
    | @op _ b' i hblock' hi =>
      obtain rfl := Option.some.inj (hblock.symm.trans hblock')
      obtain ⟨op, hop⟩ : ∃ op, b.ops[i]? = some op := ⟨_, List.getElem?_eq_getElem hi⟩
      refine ih id i b rfl hblock ?_
      rw [versionsBehind_take_succ hop] at hcurrent
      cases hdst : op.dst with
      | none => rwa [writeVersion, hdst] at hcurrent
      | some w =>
        have hne : w ≠ v := fun heq => hdef (FlowDefs.op hblock hop (heq ▸ hdst))
        simp only [writeVersion, hdst] at hcurrent
        by_cases hw : w ∈ synth
        · rwa [if_pos hw] at hcurrent
        rw [if_neg hw] at hcurrent
        by_cases hr : v.reg = w.reg
        · rw [hr, Function.update_self] at hcurrent
          exact absurd (Option.some.inj hcurrent) hne
        · rwa [Function.update_of_ne hr] at hcurrent
    | @jump p b' _ _ hblock' hsucc _ =>
      refine ih p b'.ops.length b' rfl hblock' ?_
      rw [List.take_length]
      exact hf.through p b' id b v.reg v hblock' hsucc hblock hcurrent (hphis rfl)

/-- Every read of a version comes behind its definition, or it has none. -/
theorem SsaFunction.Renamed.strict (hf : f.Renamed synth versions)
    (hs : f.Started pred entry synth versions) : f.Strict pred entry := by
  refine SsaFunction.strict_of_reads fun p q v hstep hread hundef => ?_
  by_cases hv : v ∈ synth
  · obtain ⟨j, hj⟩ := List.mem_iff_getElem?.mp hv
    have hlt : j < synth.length := (List.getElem?_eq_some_iff.mp hj).1
    have hplace := hs.undefined_synth hj hundef
    cases hread with
    | @phi id b phi _ hblock hphi harg =>
      cases hstep with
      | enter _ => exact absurd (List.mem_map_of_mem harg) (hs.args b hblock phi hphi)
      | @jump p b' _ _ hblock' _ _ =>
        rcases hplace with heq | ⟨i, hi, heq⟩
        · cases heq
        · cases heq
          obtain ⟨rest, hops⟩ := hs.preamble b' hblock'
          have hlen := congrArg List.length hops
          simp only [List.length_append, List.length_map] at hlen
          omega
    | @op id b i op _ hblock hop hmem =>
      cases hstep with
      | @op _ b' _ hblock' hi =>
        rcases hplace with heq | ⟨i', hi', heq⟩
        · cases heq
        · cases heq
          obtain ⟨rest, hops⟩ := hs.preamble b hblock
          -- The loads read nothing.
          rw [hops, List.getElem?_append_left (by rw [List.length_map]; omega), List.getElem?_map]
            at hop
          obtain ⟨w, -, rfl⟩ := Option.map_eq_some_iff.mp hop
          cases hmem
  · have hnever := hf.never hs hv hundef
    cases hread with
    | @phi id b phi _ hblock hphi harg =>
      cases hstep with
      | enter _ => exact absurd (List.mem_map_of_mem harg) (hs.args b hblock phi hphi)
      | @jump p b' _ _ hblock' hsucc _ =>
        have hbehind := hf.arg p b' id b phi v hblock' hsucc hblock hphi harg
        have hreg := (hf.own p).behind b'.ops _ _ hbehind
        refine hnever p b'.ops.length b' rfl hblock' ?_
        rw [List.take_length, hreg, hbehind]
    | @op id b i op _ hblock hop hmem =>
      cases hstep with
      | @op _ b' _ hblock' hi =>
        exact hnever id i b rfl hblock (hf.reads id b i op hblock hop v hmem)

end Strict

end Hermes.Decompile
