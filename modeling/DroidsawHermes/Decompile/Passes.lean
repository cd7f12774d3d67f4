-- SUMMARY: Definitions and uses of an SSA function, and what a pass over it keeps.
import DroidsawHermes.Decompile.Ssa
import DroidsawHermes.Decompile.Opcodes
import DroidsawHermes.Lib.Edits

/-!
# Passes

The accessors the optimizer's passes share, and `Follows`, the relation between
the function before a pass and the function after it.
-/

namespace Hermes.Decompile

/-! ## Definitions and uses -/

namespace SsaBlock

/-- The variables a block reads, phi arguments included. -/
def reads (b : SsaBlock) : List VarId :=
  (b.phis.flatMap fun phi => phi.args.map Prod.snd) ++ b.ops.flatMap SsaOp.reads

/-- The variables a block defines. -/
def defs (b : SsaBlock) : List VarId := b.phis.map Phi.dst ++ b.ops.filterMap SsaOp.dst

end SsaBlock

namespace SsaFunction

def ops (s : SsaFunction) : List SsaOp := s.blocks.flatMap SsaBlock.ops

def phis (s : SsaFunction) : List Phi := s.blocks.flatMap SsaBlock.phis

def defs (s : SsaFunction) : List VarId := s.blocks.flatMap SsaBlock.defs

/-- `count_uses`. -/
def countUses (s : SsaFunction) (v : VarId) : Nat := (s.blocks.flatMap SsaBlock.reads).count v

/-- `block_map.get(&id)`: a later block of the same id replaces an earlier one. -/
def block? (s : SsaFunction) (id : BlockId) : Option SsaBlock :=
  s.blocks.reverse.find? fun b => b.id = id

def lastOp? (s : SsaFunction) (id : BlockId) : Option SsaOp :=
  (s.block? id).bind fun b => b.ops.getLast?

end SsaFunction

/-- What a map filled by one walk over the operations holds for `v`: the entry of
the last operation that defines `v` and has one. -/
def lastDef {α : Type} (ops : List SsaOp) (entry : SsaOp → Option α) (v : VarId) : Option α :=
  ops.reverse.findSome? fun op => if op.dst = some v then entry op else none

theorem lastDef_eq_some {α : Type} {ops : List SsaOp} {entry : SsaOp → Option α} {v : VarId}
    {x : α} (h : lastDef ops entry v = some x) :
    ∃ op ∈ ops, op.dst = some v ∧ entry op = some x := by
  obtain ⟨op, hop, hx⟩ := List.exists_of_findSome?_eq_some h
  split at hx
  · exact ⟨op, List.mem_reverse.mp hop, ‹_›, hx⟩
  · cases hx

/-! ## Replacing operands -/

def SsaOp.mapOperands (σ : SsaOperand → SsaOperand) (op : SsaOp) : SsaOp :=
  { op with operands := op.operands.map σ }

def SsaBlock.mapOps (f : SsaOp → SsaOp) (b : SsaBlock) : SsaBlock := { b with ops := b.ops.map f }

def SsaFunction.mapOps (f : SsaOp → SsaOp) (s : SsaFunction) : SsaFunction :=
  ⟨s.blocks.map (SsaBlock.mapOps f)⟩

def SsaOperand.mapVar (σ : VarId → VarId) : SsaOperand → SsaOperand
  | .var v => .var (σ v)
  | o => o

/-! ## Exits -/

/-- `Ret` and `Throw`. -/
def SsaOp.IsExit (op : SsaOp) : Prop := op.name = "Ret" ∨ op.name = "Throw"

instance (op : SsaOp) : Decidable op.IsExit := inferInstanceAs (Decidable (_ ∨ _))

/-- A return or throw that ends a block reads the variable. -/
def SsaFunction.ReadAtExit (s : SsaFunction) (v : VarId) : Prop :=
  ∃ id op, s.lastOp? id = some op ∧ op.IsExit ∧ SsaOperand.var v ∈ op.operands

theorem SsaFunction.lastOp?_mem {s : SsaFunction} {id : BlockId} {op : SsaOp}
    (h : s.lastOp? id = some op) : ∃ b ∈ s.blocks, b.id = id ∧ b.ops.getLast? = some op := by
  obtain ⟨b, hb, hlast⟩ := Option.bind_eq_some_iff.mp h
  have hid := List.find?_some hb
  exact ⟨b, List.mem_reverse.mp (List.mem_of_find?_eq_some hb), by simpa using hid, hlast⟩

theorem SsaFunction.mem_ops {s : SsaFunction} {op : SsaOp} :
    op ∈ s.ops ↔ ∃ b ∈ s.blocks, op ∈ b.ops := by
  simp [ops]

theorem SsaFunction.mem_phis {s : SsaFunction} {phi : Phi} :
    phi ∈ s.phis ↔ ∃ b ∈ s.blocks, phi ∈ b.phis := by
  simp [phis]

theorem SsaFunction.mem_ops_of_lastOp? {s : SsaFunction} {id : BlockId} {op : SsaOp}
    (h : s.lastOp? id = some op) : op ∈ s.ops := by
  obtain ⟨b, hb, -, hlast⟩ := lastOp?_mem h
  exact mem_ops.mpr ⟨b, hb, List.mem_of_getLast? hlast⟩

theorem SsaFunction.mem_defs {s : SsaFunction} {d : VarId} :
    d ∈ s.defs ↔ (∃ phi ∈ s.phis, phi.dst = d) ∨ ∃ op ∈ s.ops, op.dst = some d := by
  simp only [defs, SsaBlock.defs, List.mem_flatMap, List.mem_append, List.mem_map,
    List.mem_filterMap, mem_phis, mem_ops]
  constructor
  · rintro ⟨b, hb, ⟨phi, hphi, hd⟩ | ⟨op, hop, hd⟩⟩
    · exact Or.inl ⟨phi, ⟨b, hb, hphi⟩, hd⟩
    · exact Or.inr ⟨op, ⟨b, hb, hop⟩, hd⟩
  · rintro (⟨phi, ⟨b, hb, hphi⟩, hd⟩ | ⟨op, ⟨b, hb, hop⟩, hd⟩)
    · exact ⟨b, hb, Or.inl ⟨phi, hphi, hd⟩⟩
    · exact ⟨b, hb, Or.inr ⟨op, hop, hd⟩⟩

theorem SsaFunction.opDefs_sublist (s : SsaFunction) :
    (s.ops.filterMap SsaOp.dst).Sublist s.defs := by
  obtain ⟨blocks⟩ := s
  simp only [ops, defs]
  induction blocks with
  | nil => exact List.Sublist.refl _
  | cons b blocks ih =>
    simp only [List.flatMap_cons, List.filterMap_append, SsaBlock.defs, List.append_assoc]
    exact ((List.Sublist.refl _).append ih).trans (List.sublist_append_right _ _)

/-- Where every variable is defined once, it has one defining operation. -/
theorem SsaFunction.op_unique {s : SsaFunction} (hnodup : s.defs.Nodup) {op op' : SsaOp}
    {d : VarId} (hop : op ∈ s.ops) (hop' : op' ∈ s.ops) (hd : op.dst = some d)
    (hd' : op'.dst = some d) : op = op' := by
  have hpair := List.pairwise_filterMap.mp (s.opDefs_sublist.nodup hnodup)
  by_contra hne
  have hsymm : Std.Symm fun a b : SsaOp =>
      ∀ c, a.dst = some c → ∀ c', b.dst = some c' → c ≠ c' :=
    ⟨fun _ _ h c hc c' hc' => (h c' hc' c hc).symm⟩
  exact hpair.forall hop hop' hne d hd d hd' rfl

/-- Blocks that correspond one to one under equal ids are looked up alike. -/
theorem SsaFunction.block?_forall₂ {R : SsaBlock → SsaBlock → Prop} {s s' : SsaFunction}
    (h : List.Forall₂ R s.blocks s'.blocks) (hid : ∀ b b', R b b' → b'.id = b.id) {id : BlockId}
    {b : SsaBlock} (hb : s.block? id = some b) : ∃ b', s'.block? id = some b' ∧ R b b' := by
  simp only [SsaFunction.block?] at *
  have hrev := List.rel_reverse h
  revert hb
  generalize s.blocks.reverse = l at hrev
  generalize s'.blocks.reverse = l' at hrev
  intro hb
  induction hrev with
  | nil => simp at hb
  | @cons c c' l l' hstep _ ih =>
    rw [List.find?_cons] at hb ⊢
    rw [hid c c' hstep]
    cases hc : decide (c.id = id) with
    | true =>
      simp only [hc, Option.some.injEq] at hb
      subst hb
      exact ⟨c', rfl, hstep⟩
    | false =>
      simp only [hc] at hb
      exact ih hb

/-! ## Counting uses -/

theorem SsaOp.mem_reads {op : SsaOp} {v : VarId} : v ∈ op.reads ↔ SsaOperand.var v ∈ op.operands := by
  simp only [reads, List.mem_filterMap]
  constructor
  · rintro ⟨o, ho, hv⟩
    cases o with
    | var w =>
      simp only [SsaOperand.var?, Option.some.injEq] at hv
      exact hv ▸ ho
    | _ => simp [SsaOperand.var?] at hv
  · exact fun h => ⟨_, h, rfl⟩

theorem count_reads_le (s : SsaFunction) (v : VarId) :
    (s.ops.flatMap SsaOp.reads).count v ≤ s.countUses v := by
  obtain ⟨blocks⟩ := s
  simp only [SsaFunction.countUses, SsaFunction.ops]
  induction blocks with
  | nil => simp
  | cons b blocks ih =>
    simp only [List.flatMap_cons, List.flatMap_append, List.count_append, SsaBlock.reads] at *
    omega

theorem one_le_countUses {s : SsaFunction} {op : SsaOp} {v : VarId} (hop : op ∈ s.ops)
    (hv : SsaOperand.var v ∈ op.operands) : 1 ≤ s.countUses v := by
  refine Nat.le_trans ?_ (count_reads_le s v)
  exact List.count_pos_iff.mpr (List.mem_flatMap.mpr ⟨op, hop, SsaOp.mem_reads.mpr hv⟩)

/-! ## What a pass keeps -/

/-- Names that only the rewrite of constructs and async wrappers gives or takes. -/
def Settled (name : String) : Prop :=
  name = "Ret" ∨ name = "Throw" ∨ name = "Construct" ∨ name = "ConstructLong"
    ∨ name = "ConstructNew" ∨ name = "CreateAsyncClosure"
    ∨ startsWith name "CreateGeneratorClosure" = true

instance (name : String) : Decidable (Settled name) :=
  inferInstanceAs (Decidable (_ ∨ _))

/-- The operation still defines the same variable, under a name of the same kind. -/
structure SsaOp.Kept (op op' : SsaOp) : Prop where
  dst : op'.dst = op.dst
  original : op'.original = op.original
  name : op'.name = op.name ∨ ¬ Settled op.name ∧ ¬ Settled op'.name

theorem SsaOp.Kept.refl (op : SsaOp) : op.Kept op := ⟨rfl, rfl, Or.inl rfl⟩

theorem SsaOp.Kept.trans {op op' op'' : SsaOp} (h : op.Kept op') (h' : op'.Kept op'') :
    op.Kept op'' := by
  refine ⟨h'.dst.trans h.dst, h'.original.trans h.original, ?_⟩
  rcases h.name with hn | ⟨hn, hn'⟩
  · rw [← hn]
    exact h'.name
  · rcases h'.name with hm | ⟨-, hm'⟩
    · exact Or.inr ⟨hn, by rwa [hm]⟩
    · exact Or.inr ⟨hn, hm'⟩

/-- One block after a pass. The definitions that `keeps` holds of stay, and `σ`
is what becomes of the operands of the return or throw that ends it. -/
structure BlockFollows (keeps : VarId → Prop) (σ : BlockId → SsaOperand → SsaOperand)
    (b b' : SsaBlock) : Prop where
  id : b'.id = b.id
  defs : b'.defs.Sublist b.defs
  back : ∀ op' ∈ b'.ops, ∃ op ∈ b.ops, op.Kept op'
  ops : ∀ op ∈ b.ops, ∀ d, op.dst = some d → keeps d → ∃ op' ∈ b'.ops, op.Kept op'
  phis : ∀ phi ∈ b.phis, keeps phi.dst → ∃ phi' ∈ b'.phis, phi'.dst = phi.dst
  exit : ∀ op, b.ops.getLast? = some op → op.IsExit →
    b'.ops.getLast? = some (op.mapOperands (σ b.id))

/-- The function after a pass. -/
def Follows (keeps : VarId → Prop) (σ : BlockId → SsaOperand → SsaOperand)
    (s s' : SsaFunction) : Prop := List.Forall₂ (BlockFollows keeps σ) s.blocks s'.blocks

namespace Follows

variable {keeps keeps' : VarId → Prop} {σ σ' : BlockId → SsaOperand → SsaOperand}
  {s s' s'' : SsaFunction}

theorem defs (h : Follows keeps σ s s') : s'.defs.Sublist s.defs := by
  simp only [SsaFunction.defs, Follows] at *
  generalize s.blocks = l at *
  generalize s'.blocks = l' at *
  induction h with
  | nil => exact List.Sublist.refl _
  | cons hb _ ih =>
    rw [List.flatMap_cons, List.flatMap_cons]
    exact hb.defs.append ih

theorem back (h : Follows keeps σ s s') {op' : SsaOp} (hop : op' ∈ s'.ops) :
    ∃ op ∈ s.ops, op.Kept op' := by
  obtain ⟨b', hb', hop⟩ := SsaFunction.mem_ops.mp hop
  obtain ⟨i, hi⟩ := List.mem_iff_getElem?.mp hb'
  obtain ⟨b, hb, hstep⟩ := Edits.forall₂_getElem?_right h hi
  obtain ⟨op, hop, hkept⟩ := hstep.back op' hop
  exact ⟨op, SsaFunction.mem_ops.mpr ⟨b, List.mem_of_getElem? hb, hop⟩, hkept⟩

theorem ops (h : Follows keeps σ s s') {op : SsaOp} {d : VarId} (hop : op ∈ s.ops)
    (hd : op.dst = some d) (hkeeps : keeps d) : ∃ op' ∈ s'.ops, op.Kept op' := by
  obtain ⟨b, hb, hop⟩ := SsaFunction.mem_ops.mp hop
  obtain ⟨i, hi⟩ := List.mem_iff_getElem?.mp hb
  obtain ⟨b', hb', hstep⟩ := Edits.forall₂_getElem? h hi
  obtain ⟨op', hop', hkept⟩ := hstep.ops op hop d hd hkeeps
  exact ⟨op', SsaFunction.mem_ops.mpr ⟨b', List.mem_of_getElem? hb', hop'⟩, hkept⟩

theorem phis (h : Follows keeps σ s s') {phi : Phi} (hphi : phi ∈ s.phis)
    (hkeeps : keeps phi.dst) : ∃ phi' ∈ s'.phis, phi'.dst = phi.dst := by
  obtain ⟨b, hb, hphi⟩ := SsaFunction.mem_phis.mp hphi
  obtain ⟨i, hi⟩ := List.mem_iff_getElem?.mp hb
  obtain ⟨b', hb', hstep⟩ := Edits.forall₂_getElem? h hi
  obtain ⟨phi', hphi', hdst⟩ := hstep.phis phi hphi hkeeps
  exact ⟨phi', SsaFunction.mem_phis.mpr ⟨b', List.mem_of_getElem? hb', hphi'⟩, hdst⟩

theorem block? (h : Follows keeps σ s s') {id : BlockId} {b : SsaBlock}
    (hb : s.block? id = some b) : ∃ b', s'.block? id = some b' ∧ BlockFollows keeps σ b b' :=
  SsaFunction.block?_forall₂ h (fun _ _ hstep => hstep.id) hb

theorem mono (h : Follows keeps σ s s') (hkeeps : ∀ d, keeps' d → keeps d) :
    Follows keeps' σ s s' := by
  refine List.Forall₂.imp (fun b b' hstep => ?_) h
  exact {
    hstep with
    ops := fun op hop d hd hk => hstep.ops op hop d hd (hkeeps d hk)
    phis := fun phi hphi hk => hstep.phis phi hphi (hkeeps _ hk) }

theorem lastOp? (h : Follows keeps σ s s') {id : BlockId} {op : SsaOp}
    (hop : s.lastOp? id = some op) (hexit : op.IsExit) :
    s'.lastOp? id = some (op.mapOperands (σ id)) := by
  obtain ⟨b, hb, hlast⟩ := Option.bind_eq_some_iff.mp hop
  obtain ⟨b', hb', hstep⟩ := h.block? hb
  have hid : b.id = id := by simpa using List.find?_some hb
  rw [SsaFunction.lastOp?, hb', Option.bind_some, hstep.exit op hlast hexit, hid]

end Follows

theorem SsaOp.mapOperands_id (op : SsaOp) : (op.mapOperands fun o => o) = op := by
  simp [mapOperands]

/-- A pass that leaves returns and throws as they are. -/
theorem Follows.lastOp?_id {keeps : VarId → Prop} {s s' : SsaFunction}
    (h : Follows keeps (fun _ o => o) s s') {id : BlockId} {op : SsaOp}
    (hop : s.lastOp? id = some op) (hexit : op.IsExit) : s'.lastOp? id = some op := by
  have hlast := h.lastOp? hop hexit
  rwa [SsaOp.mapOperands_id] at hlast

theorem Follows.readAtExit {keeps : VarId → Prop} {s s' : SsaFunction}
    (h : Follows keeps (fun _ o => o) s s') {d : VarId} (hd : s.ReadAtExit d) :
    s'.ReadAtExit d := by
  obtain ⟨id, op, hop, hexit, hv⟩ := hd
  exact ⟨id, op, h.lastOp?_id hop hexit, hexit, hv⟩

theorem BlockFollows.refl {keeps : VarId → Prop} (b : SsaBlock) :
    BlockFollows keeps (fun _ o => o) b b where
  id := rfl
  defs := List.Sublist.refl _
  back := fun op hop => ⟨op, hop, SsaOp.Kept.refl op⟩
  ops := fun op hop _ _ _ => ⟨op, hop, SsaOp.Kept.refl op⟩
  phis := fun phi hphi _ => ⟨phi, hphi, rfl⟩
  exit := by
    intro op hlast _
    rw [SsaOp.mapOperands_id]
    exact hlast

theorem BlockFollows.trans {keeps keeps' keeps'' : VarId → Prop}
    {σ σ' : BlockId → SsaOperand → SsaOperand} {b b' b'' : SsaBlock}
    (h : BlockFollows keeps σ b b') (h' : BlockFollows keeps' σ' b' b'')
    (hkeeps : ∀ d, keeps'' d → keeps d ∧ keeps' d) :
    BlockFollows keeps'' (fun id o => σ' id (σ id o)) b b'' where
  id := h'.id.trans h.id
  defs := h'.defs.trans h.defs
  back := by
    intro op'' hop''
    obtain ⟨op', hop', hkept'⟩ := h'.back op'' hop''
    obtain ⟨op, hop, hkept⟩ := h.back op' hop'
    exact ⟨op, hop, hkept.trans hkept'⟩
  ops := by
    intro op hop d hd hk
    obtain ⟨op', hop', hkept⟩ := h.ops op hop d hd (hkeeps d hk).1
    obtain ⟨op'', hop'', hkept'⟩ := h'.ops op' hop' d (hkept.dst.trans hd) (hkeeps d hk).2
    exact ⟨op'', hop'', hkept.trans hkept'⟩
  phis := by
    intro phi hphi hk
    obtain ⟨phi', hphi', hdst⟩ := h.phis phi hphi (hkeeps _ hk).1
    obtain ⟨phi'', hphi'', hdst'⟩ := h'.phis phi' hphi' (by rw [hdst]; exact (hkeeps _ hk).2)
    exact ⟨phi'', hphi'', hdst'.trans hdst⟩
  exit := by
    intro op hlast hexit
    have h1 := h.exit op hlast hexit
    have h2 := h'.exit _ h1 hexit
    rw [h2, h.id]
    simp [SsaOp.mapOperands]

theorem Follows.trans {keeps keeps' keeps'' : VarId → Prop}
    {σ σ' : BlockId → SsaOperand → SsaOperand} {s s' s'' : SsaFunction}
    (h : Follows keeps σ s s') (h' : Follows keeps' σ' s' s'')
    (hkeeps : ∀ d, keeps'' d → keeps d ∧ keeps' d) :
    Follows keeps'' (fun id o => σ' id (σ id o)) s s'' := by
  simp only [Follows] at *
  generalize s.blocks = l at *
  generalize s'.blocks = l' at *
  generalize s''.blocks = l'' at *
  induction h generalizing l'' with
  | nil =>
    cases h'
    exact List.Forall₂.nil
  | cons hb _ ih =>
    cases h' with
    | cons hb' htail => exact List.Forall₂.cons (hb.trans hb' hkeeps) (ih _ htail)

/-! ## Passes that keep every exit as it is -/

/-- A pass that leaves returns and throws alone and keeps the definitions they read. -/
def Tidies (s s' : SsaFunction) : Prop := Follows s.ReadAtExit (fun _ o => o) s s'

namespace Tidies

variable {s s' s'' : SsaFunction}

theorem trans (h : Tidies s s') (h' : Tidies s' s'') : Tidies s s'' :=
  Follows.trans h h' fun _ hd => ⟨hd, Follows.readAtExit h hd⟩

end Tidies

theorem filterMap_dst_eq {ops ops' : List SsaOp}
    (h : List.Forall₂ (fun op op' : SsaOp => op'.dst = op.dst) ops ops') :
    ops'.filterMap SsaOp.dst = ops.filterMap SsaOp.dst := by
  induction h with
  | nil => rfl
  | cons hdst _ ih => rw [List.filterMap_cons, List.filterMap_cons, hdst, ih]

/-- A block whose operations change in place and then lose some by index. -/
theorem BlockFollows.of_edit {keeps : VarId → Prop} {σ : BlockId → SsaOperand → SsaOperand}
    {b : SsaBlock} {ops : List SsaOp} {rm : List Nat}
    (hkept : List.Forall₂ (fun op op' => op.Kept op' ∧
      (op.IsExit → op' = op.mapOperands (σ b.id))) b.ops ops)
    (hrm : ∀ i ∈ rm, ∀ op, b.ops[i]? = some op →
      ¬ op.IsExit ∧ ∀ d, op.dst = some d → ¬ keeps d) :
    BlockFollows keeps σ b { b with ops := Edits.removeAll rm ops } where
  id := rfl
  defs := by
    simp only [SsaBlock.defs]
    rw [← filterMap_dst_eq (hkept.imp fun _ _ h => h.1.dst)]
    exact ((Edits.removeAll_sublist rm ops).filterMap _).append_left _
  back := by
    intro op' hop'
    obtain ⟨i, hi, -⟩ := Edits.mem_removeAll.mp hop'
    obtain ⟨op, hop, hstep⟩ := Edits.forall₂_getElem?_right hkept hi
    exact ⟨op, List.mem_of_getElem? hop, hstep.1⟩
  ops := by
    intro op hop d hd hk
    obtain ⟨i, hi⟩ := List.mem_iff_getElem?.mp hop
    obtain ⟨op', hop', hstep⟩ := Edits.forall₂_getElem? hkept hi
    have hnot : i ∉ rm := fun h => (hrm i h op hi).2 d hd hk
    exact ⟨op', Edits.mem_removeAll.mpr ⟨i, hop', hnot⟩, hstep.1⟩
  phis := fun phi hphi _ => ⟨phi, hphi, rfl⟩
  exit := by
    intro op hlast hexit
    obtain ⟨op', hlast', hstep⟩ := Edits.forall₂_getLast? hkept hlast
    rw [← hstep.2 hexit]
    apply Edits.getLast?_removeAll hlast'
    rw [← hkept.length_eq]
    intro hmem
    rw [List.getLast?_eq_getElem?] at hlast
    exact (hrm _ hmem op hlast).1 hexit

/-- Operations that change in place. -/
theorem Follows.mapOps {s : SsaFunction} {f : SsaOp → SsaOp} {σ : SsaOperand → SsaOperand}
    (h : ∀ op ∈ s.ops, op.Kept (f op) ∧ (op.IsExit → f op = op.mapOperands σ)) :
    Follows (fun _ => True) (fun _ => σ) s (s.mapOps f) := by
  apply Edits.forall₂_map_self
  intro b hb
  have hstep : BlockFollows (fun _ => True) (fun _ => σ) b
      { b with ops := Edits.removeAll [] (b.ops.map f) } := by
    refine BlockFollows.of_edit (Edits.forall₂_map_self fun op hop => ?_) (by simp)
    exact h op (SsaFunction.mem_ops.mpr ⟨b, hb, hop⟩)
  simpa [Edits.removeAll, SsaBlock.mapOps] using hstep

end Hermes.Decompile
