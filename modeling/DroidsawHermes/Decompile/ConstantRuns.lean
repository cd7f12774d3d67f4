-- SUMMARY: Constant folding keeps every run of a machine that computes like JavaScript, and so do the passes behind `build_ssa`.
import DroidsawHermes.Decompile.ConstantFolds
import DroidsawHermes.Decompile.SsaRuns

/-!
# Runs through constant folding

On a machine whose arithmetic is that of JavaScript, a variable has the number that the pass
takes for its constant wherever it can be read. A folded operation then gives what the load in
its place gives, unless the result is a negative zero.
-/

namespace Hermes.Decompile

open Binary64

/-! ## Numbers on a machine -/

/-- The number that a constant stands for. -/
def FoldedConst.float : FoldedConst → Float
  | .int n => ofInt n
  | .double bits => .ofBits bits

/-- The result of a numeric operation on doubles. -/
def jsDouble (name : String) (x y : Float) : Option Float :=
  match name with
  | "Add" | "AddN" => some (x + y)
  | "Sub" | "SubN" => some (x - y)
  | "Mul" | "MulN" => some (x * y)
  | "Div" | "DivN" => some (x / y)
  | _ => none

/-- What an operation does that gives a value and nothing else. -/
def gives {Value σ Event : Type} (value : Value) (s : σ) : Effect Value σ Event :=
  ⟨value, s, [], false, 0⟩

/-- Operands 1 and 2 of an operation have the given values. -/
def SsaOp.ReadsPair {Value : Type} (op : SsaOp) (values : VarId → Value) (x y : Value) : Prop :=
  ∃ a b, op.operands[1]? = some (.var a) ∧ op.operands[2]? = some (.var b) ∧
    values a = x ∧ values b = y

def SsaOp.Loads (op : SsaOp) : FoldedConst → Prop
  | .int n => op.constVal = some n
  | .double bits => op.constDouble = some bits

/-- Loads give their constants, and operations on numbers give what those of JavaScript do. -/
structure Computes {Value σ Event : Type} (m : Machine Value σ Event) (num : Float → Value) :
    Prop where
  loads : ∀ op c values s, op.Loads c → m.exec op values s = gives (num c.float) s
  bitwise : ∀ op values l r n s, IsInt32 l → IsInt32 r → JsBitwise op.name l r n →
    op.ReadsPair values (num (ofInt l)) (num (ofInt r)) →
    m.exec op (op.reads.map values) s = gives (num (ofInt n)) s
  numeric : ∀ op values l r x s, IsInt32 l → IsInt32 r → jsNumeric op.name l r = some x →
    op.ReadsPair values (num (ofInt l)) (num (ofInt r)) →
    m.exec op (op.reads.map values) s = gives (num x) s
  doubles : ∀ op values x y z s, jsDouble op.name x y = some z →
    op.ReadsPair values (num x) (num y) → m.exec op (op.reads.map values) s = gives (num z) s

/-! ## What a fold gives -/

theorem foldDoubles_float {name : String} {lv rv : UInt64} {c : FoldedConst}
    (h : foldDoubles name lv rv = some c) :
    jsDouble name (.ofBits lv) (.ofBits rv) = some c.float := by
  simp only [foldDoubles] at h
  simp only [jsDouble]
  split at h <;> cases h
  all_goals exact congrArg some (ofBits_toBits _).symm

/-- Folding integers gives the result of the operation, but for the negative zeros. -/
theorem foldInts_float {name : String} {l r : Int} {c : FoldedConst} (hl : IsInt32 l)
    (hr : IsInt32 r) (hneg : ¬ NegZeroResult name l r) (h : foldInts name l r = some c) :
    (∃ n, JsBitwise name l r n ∧ c.float = ofInt n) ∨ jsNumeric name l r = some c.float := by
  have hresult := (isResult_foldInts hl hr h).mpr hneg
  cases c with
  | int n =>
    rcases hresult with hbit | ⟨x, hx, hnumber⟩
    · exact Or.inl ⟨n, hbit, rfl⟩
    · rw [number_injective hnumber] at hx
      exact Or.inr hx
  | double bits =>
    by_cases hname : name ∈ bitwiseOps
    · obtain ⟨n, hbit, hnumber⟩ := hresult hname
      exact Or.inl ⟨n, hbit, number_injective hnumber⟩
    · have hnone : bitwiseResult name l r = none := by
        rw [← Option.not_isSome_iff_eq_none, bitwiseResult_isSome]
        exact hname
      simp only [foldInts, hnone, Option.map_eq_some_iff] at h
      obtain ⟨val, hval, h⟩ := h
      split at h
      · cases h
      · obtain rfl := FoldedConst.double.inj h
        refine Or.inr ?_
        rw [FoldedConst.float, ofBits_toBits]
        exact (numericResult_spec hl hr hval).1

/-- A constant is known for a variable. -/
def Consts.Has (consts : Consts) (v : VarId) : FoldedConst → Prop
  | .int n => consts.vals v = some n
  | .double bits => consts.doubles v = some bits

theorem Consts.has_insert {consts : Consts} {dst v : VarId} {c c' : FoldedConst}
    (h : (consts.insert dst c).Has v c') : v = dst ∧ c' = c ∨ consts.Has v c' := by
  cases c <;> cases c' <;> simp only [insert, Has] at h ⊢
  · split at h
    · next hv => exact Or.inl ⟨hv, by rw [Option.some.inj h]⟩
    · exact Or.inr h
  · exact Or.inr h
  · exact Or.inr h
  · split at h
    · next hv => exact Or.inl ⟨hv, by rw [Option.some.inj h]⟩
    · exact Or.inr h

theorem SsaOp.has_of_intOperands {op : SsaOp} {consts : Consts} {l r : Int}
    (h : op.intOperands consts = some (l, r)) : ∃ a b, op.operands[1]? = some (.var a) ∧
      op.operands[2]? = some (.var b) ∧ consts.Has a (.int l) ∧ consts.Has b (.int r) := by
  unfold intOperands at h
  split at h
  · next a b ha hb =>
    simp only [Option.bind_eq_bind, Option.bind_eq_some_iff, Option.pure_def, Option.some.injEq,
      Prod.mk.injEq] at h
    obtain ⟨l', hl, r', hr, rfl, rfl⟩ := h
    exact ⟨a, b, ha, hb, hl, hr⟩
  · cases h

theorem SsaOp.has_of_doubleOperands {op : SsaOp} {consts : Consts} {l r : UInt64}
    (h : op.doubleOperands consts = some (l, r)) : ∃ a b, op.operands[1]? = some (.var a) ∧
      op.operands[2]? = some (.var b) ∧ consts.Has a (.double l) ∧ consts.Has b (.double r) := by
  unfold doubleOperands at h
  split at h
  · next a b ha hb =>
    simp only [Option.bind_eq_bind, Option.bind_eq_some_iff, Option.pure_def, Option.some.injEq,
      Prod.mk.injEq] at h
    obtain ⟨l', hl, r', hr, rfl, rfl⟩ := h
    exact ⟨a, b, ha, hb, hl, hr⟩
  · cases h

/-- The operands of a fold are there. -/
theorem SsaOp.operand_of_folded {op : SsaOp} {consts : Consts} {c : FoldedConst}
    (h : op.folded consts = some c) : ∃ o, op.operands[1]? = some o := by
  rw [folded, Option.or_eq_some_iff] at h
  rcases h with h | ⟨-, h⟩
  · obtain ⟨e, he, -⟩ := Option.bind_eq_some_iff.mp h
    obtain ⟨a, -, ha, -⟩ := has_of_intOperands he
    exact ⟨_, ha⟩
  · obtain ⟨e, he, -⟩ := Option.bind_eq_some_iff.mp h
    obtain ⟨a, -, ha, -⟩ := has_of_doubleOperands he
    exact ⟨_, ha⟩

theorem SsaOp.loads_loadConst {op : SsaOp} {o : SsaOperand} (h : op.operands[1]? = some o)
    (c : FoldedConst) : (op.loadConst c).Loads c := by
  obtain ⟨hlt, -⟩ := List.getElem?_eq_some_iff.mp h
  have hsecond : ∀ o' : SsaOperand, (op.operands.take 1 ++ [o'])[1]? = some o' := by
    intro o'
    rw [List.getElem?_append_right (by rw [List.length_take]; omega), List.length_take,
      Nat.min_eq_left (by omega)]
    rfl
  cases c <;> simp only [Loads, loadConst, constVal, constDouble, hsecond]

section Folds

variable {Value σ Event : Type} {m : Machine Value σ Event} {num : Float → Value}

/-- An operation gives what it is folded to. -/
theorem Computes.folded (hm : Computes m num) {op : SsaOp} {consts : Consts} {c : FoldedConst}
    (hrange : consts.InRange)
    (hneg : ∀ l r, op.intOperands consts = some (l, r) → ¬ NegZeroResult op.name l r)
    (h : op.folded consts = some c) {values : VarId → Value}
    (hvalues : ∀ v ∈ op.reads, ∀ c, consts.Has v c → values v = num c.float) (s : σ) :
    m.exec op (op.reads.map values) s = gives (num c.float) s := by
  have hread : ∀ {i : Nat} {v : VarId}, op.operands[i]? = some (.var v) → v ∈ op.reads :=
    fun hv => SsaOp.mem_reads.mpr (List.mem_of_getElem? hv)
  rw [SsaOp.folded, Option.or_eq_some_iff] at h
  rcases h with h | ⟨-, h⟩
  · obtain ⟨⟨l, r⟩, hops, hfold⟩ := Option.bind_eq_some_iff.mp h
    obtain ⟨a, b, ha, hb, hla, hrb⟩ := SsaOp.has_of_intOperands hops
    obtain ⟨hl, hr⟩ := isInt32_of_intOperands hrange hops
    have hpair : op.ReadsPair values (num (ofInt l)) (num (ofInt r)) :=
      ⟨a, b, ha, hb, hvalues a (hread ha) _ hla, hvalues b (hread hb) _ hrb⟩
    rcases foldInts_float hl hr (hneg l r hops) hfold with ⟨n, hbit, hfloat⟩ | hnumeric
    · rw [hfloat]
      exact hm.bitwise op values l r n s hl hr hbit hpair
    · exact hm.numeric op values l r c.float s hl hr hnumeric hpair
  · obtain ⟨⟨l, r⟩, hops, hfold⟩ := Option.bind_eq_some_iff.mp h
    obtain ⟨a, b, ha, hb, hla, hrb⟩ := SsaOp.has_of_doubleOperands hops
    exact hm.doubles op values _ _ c.float s (foldDoubles_float hfold)
      ⟨a, b, ha, hb, hvalues a (hread ha) _ hla, hvalues b (hread hb) _ hrb⟩

end Folds

/-! ## Where constants come from -/

theorem forall_has_foldSteps {P : VarId → FoldedConst → Prop} {consts : Consts} {ops : List SsaOp}
    (hstart : ∀ v c, consts.Has v c → P v c)
    (hfold : ∀ e ∈ foldSteps consts ops, ∀ v c, e.2.dst = some v → e.2.folded e.1 = some c → P v c) :
    ∀ e ∈ foldSteps consts ops, ∀ v c, e.1.Has v c → P v c := by
  induction ops generalizing consts with
  | nil => exact fun e he => by cases he
  | cons op ops ih =>
    rw [foldSteps, List.forall_mem_cons] at hfold ⊢
    refine ⟨hstart, ih (fun v c hhas => ?_) hfold.2⟩
    cases hdst : op.dst with
    | none =>
      rw [foldOp_of_dst_none hdst] at hhas
      exact hstart v c hhas
    | some dst =>
      rw [foldOp_eq hdst] at hhas
      cases hfolded : op.folded consts with
      | none =>
        rw [hfolded] at hhas
        exact hstart v c hhas
      | some c' =>
        rw [hfolded] at hhas
        rcases Consts.has_insert hhas with ⟨rfl, rfl⟩ | hhas
        · exact hfold.1 v c hdst hfolded
        · exact hstart v c hhas

/-- What the pass takes for the value of a variable was loaded to it, or folded. -/
def SsaFunction.ConstOf (f : SsaFunction) (v : VarId) (c : FoldedConst) : Prop :=
  (∃ op ∈ f.ops, op.dst = some v ∧ op.Loads c) ∨
    ∃ e ∈ f.foldSteps, e.2.dst = some v ∧ e.2.folded e.1 = some c

/-- No fold on integers has a negative zero as its result. -/
def SsaFunction.NoNegZero (f : SsaFunction) : Prop :=
  ∀ e ∈ f.foldSteps, e.2.dst.isSome → ∀ l r, e.2.intOperands e.1 = some (l, r) →
    ¬ NegZeroResult e.2.name l r

section Origins

variable {f : SsaFunction}

theorem SsaFunction.has_loadedConsts {v : VarId} {c : FoldedConst} (h : f.loadedConsts.Has v c) :
    ∃ op ∈ f.ops, op.dst = some v ∧ op.Loads c := by
  cases c with
  | int n =>
    simp only [loadedConsts, Consts.Has] at h
    split at h
    · cases h
    · exact lastDef_eq_some h
  | double bits =>
    simp only [loadedConsts, Consts.Has] at h
    split at h
    · cases h
    · exact lastDef_eq_some h

theorem SsaFunction.constOf_has {e : Consts × SsaOp} (he : e ∈ f.foldSteps) {v : VarId}
    {c : FoldedConst} (h : e.1.Has v c) : f.ConstOf v c :=
  forall_has_foldSteps (P := f.ConstOf) (fun _ _ hhas => Or.inl (has_loadedConsts hhas))
    (fun e' he' _ _ hdst hfolded => Or.inr ⟨e', he', hdst, hfolded⟩) e he v c h

theorem SsaFunction.inRange_foldSteps (h : f.LoadsInt32) {e : Consts × SsaOp}
    (he : e ∈ f.foldSteps) : e.1.InRange := by
  intro v n hv
  have hall := forall_has_foldSteps (P := fun _ c => ∀ n, c = .int n → IsInt32 n)
    (fun v c hhas n hc => ?_) (fun e' _ v c _ hfolded n hc => ?_) e he v (.int n) hv
  · exact hall n rfl
  · subst hc
    exact inRange_loadedConsts h v n hhas
  · subst hc
    exact isInt32_of_folded hfolded

theorem SsaFunction.snd_mem_ops {e : Consts × SsaOp} (he : e ∈ f.foldSteps) : e.2 ∈ f.ops :=
  f.snd_foldSteps ▸ List.mem_map_of_mem he

/-- A constant is the value of a variable that has a definition. -/
theorem SsaFunction.ConstOf.op {v : VarId} {c : FoldedConst} (h : f.ConstOf v c) :
    ∃ op ∈ f.ops, op.dst = some v := by
  rcases h with ⟨op, hop, hdst, -⟩ | ⟨e, he, hdst, -⟩
  · exact ⟨op, hop, hdst⟩
  · exact ⟨e.2, snd_mem_ops he, hdst⟩

end Origins

/-! ## The pass -/

theorem foldSteps_append (consts : Consts) (ops rest : List SsaOp) :
    foldSteps consts (ops ++ rest) =
      foldSteps consts ops ++ foldSteps (foldOps consts ops).2 rest := by
  induction ops generalizing consts with
  | nil => rfl
  | cons op ops ih => simp only [List.cons_append, foldSteps, foldOps, ih]

/-- An operation and what a step makes of it. -/
def FoldedAt (steps : List (Consts × SsaOp)) (op op' : SsaOp) : Prop :=
  ∃ consts, (consts, op) ∈ steps ∧ op' = (foldOp consts op).1

structure FoldedBlock (steps : List (Consts × SsaOp)) (b b' : SsaBlock) : Prop where
  same : b' = { b with ops := b'.ops }
  ops : List.Forall₂ (FoldedAt steps) b.ops b'.ops

theorem FoldedAt.mono {steps steps' : List (Consts × SsaOp)} (hsub : steps ⊆ steps') {op op' : SsaOp}
    (h : FoldedAt steps op op') : FoldedAt steps' op op' :=
  h.imp fun _ hstep => ⟨hsub hstep.1, hstep.2⟩

theorem foldOps_at (consts : Consts) (ops : List SsaOp) :
    List.Forall₂ (FoldedAt (foldSteps consts ops)) ops (foldOps consts ops).1 := by
  induction ops generalizing consts with
  | nil => exact .nil
  | cons op ops ih =>
    rw [foldSteps, foldOps]
    refine .cons ⟨consts, List.mem_cons_self, rfl⟩ ((ih _).imp fun o o' h => ?_)
    exact h.mono (List.subset_cons_self _ _)

theorem foldBlocks_at (consts : Consts) (blocks : List SsaBlock) :
    List.Forall₂ (FoldedBlock (foldSteps consts (blocks.flatMap SsaBlock.ops))) blocks
      (foldBlocks consts blocks) := by
  induction blocks generalizing consts with
  | nil => exact .nil
  | cons b blocks ih =>
    rw [foldBlocks, List.flatMap_cons, foldSteps_append]
    refine .cons ⟨rfl, (foldOps_at consts b.ops).imp fun o o' h => ?_⟩
      ((ih _).imp fun o o' h => ⟨h.same, h.ops.imp fun _ _ h => ?_⟩)
    · exact h.mono (List.subset_append_left _ _)
    · exact h.mono (List.subset_append_right _ _)

section Pass

variable {Value σ Event : Type} {m : Machine Value σ Event} {num : Float → Value} {f : SsaFunction}
  {pred entry : BlockId}

/-- Where a variable can be read, it has the number that the pass takes for its constant. -/
def ConstsHold (num : Float → Value) (f : SsaFunction) (pred entry : BlockId) (p : Point)
    (values : VarId → Value) : Prop :=
  (f.flow pred entry).Established (fun v value => ∀ c, f.ConstOf v c → value = num c.float) p values

theorem ConstsHold.value (hids : (f.blocks.map SsaBlock.id).Nodup) (hstrict : f.Strict pred entry)
    {p q : Point} {values : VarId → Value} (h : ConstsHold num f pred entry p values)
    (hstep : FlowStep f entry p q) {v : VarId} (hread : FlowReads f pred p q v) {c : FoldedConst}
    (hc : f.ConstOf v c) : values v = num c.float := by
  rcases h v with hvalue | hundef
  · exact hvalue c hc
  · obtain ⟨op, hop, hdst⟩ := hc.op
    obtain ⟨p', hp'⟩ := FlowDefs.of_op hids hop hdst
    exact absurd hp' (hstrict.reads p q v hstep hread hundef p')

/-- An operation gives its destination the constant that the pass takes for it. -/
theorem ConstsHold.exec (hm : Computes m num) (hids : (f.blocks.map SsaBlock.id).Nodup)
    (hnodup : f.defs.Nodup) (hstrict : f.Strict pred entry) (hloads : f.LoadsInt32)
    (hneg : f.NoNegZero) {id : BlockId} {b : SsaBlock} {i : Nat} {op : SsaOp}
    (hblock : f.block? id = some b) (hop : b.ops[i]? = some op) {values : VarId → Value}
    (h : ConstsHold num f pred entry (.mid id i) values) {v : VarId} (hdst : op.dst = some v)
    {c : FoldedConst} (hc : f.ConstOf v c) (s : σ) :
    m.exec op (op.reads.map values) s = gives (num c.float) s := by
  have hmem : op ∈ f.ops := SsaFunction.mem_ops_at hblock hop
  have hlt : i < b.ops.length := (List.getElem?_eq_some_iff.mp hop).1
  rcases hc with ⟨op', hop', hdst', hload⟩ | ⟨⟨consts, op'⟩, he, hdst', hfolded⟩
  · obtain rfl := SsaFunction.op_unique hnodup hmem hop' hdst hdst'
    exact hm.loads op c _ s hload
  · obtain rfl := SsaFunction.op_unique hnodup hmem (SsaFunction.snd_mem_ops he) hdst hdst'
    refine hm.folded (SsaFunction.inRange_foldSteps hloads he)
      (hneg _ he (Option.isSome_of_eq_some hdst)) hfolded (fun u hu c' hhas => ?_) s
    exact h.value hids hstrict (.op hblock hlt) (.op hblock hop hu) (SsaFunction.constOf_has he hhas)

theorem Computes.keeps_consts (hm : Computes m num) (hids : (f.blocks.map SsaBlock.id).Nodup)
    (hnodup : f.defs.Nodup) (hstrict : f.Strict pred entry) (hloads : f.LoadsInt32)
    (hneg : f.NoNegZero) : m.Keeps f pred entry (ConstsHold num f pred entry) where
  enter := by
    rintro p id b values hblock hstep h
    refine FlowGraph.established_step h hstep (Machine.enterPhis_frame hblock _ values) ?_
    -- No constant is that of a phi.
    rintro v hdef c hc
    obtain ⟨op, hop, hdst⟩ := hc.op
    cases hdef with
    | @phi id b phi hblock hphi =>
      exact absurd hdst (SsaFunction.phi_ne_op hnodup (SsaFunction.mem_phis_at hblock hphi) hop)
  op := by
    rintro id b i op values s hblock hop h
    have hlt : i < b.ops.length := (List.getElem?_eq_some_iff.mp hop).1
    refine FlowGraph.established_step h (.op hblock hlt) (Machine.assign_frame hblock hop values _) ?_
    rintro v hdef c hc
    cases hdef with
    | @op _ b' _ op' _ hblock' hop' hdst =>
      obtain rfl := Option.some.inj (hblock.symm.trans hblock')
      obtain rfl := Option.some.inj (hop.symm.trans hop')
      rw [ConstsHold.exec hm hids hnodup hstrict hloads hneg hblock hop h hdst hc, hdst,
        Machine.assign, Function.update_self, gives]

theorem constantFolding_inStep (hm : Computes m num) (hids : (f.blocks.map SsaBlock.id).Nodup)
    (hnodup : f.defs.Nodup) (hstrict : f.Strict pred entry) (hloads : f.LoadsInt32)
    (hneg : f.NoNegZero) :
    m.InStep f (constantFolding f) pred entry (ConstsHold num f pred entry) := by
  have hblocks : List.Forall₂ (FoldedBlock f.foldSteps) f.blocks (constantFolding f).blocks :=
    foldBlocks_at f.loadedConsts f.blocks
  refine ⟨fun id hnone => ?_, fun id b hblock => ?_⟩
  · rw [Option.eq_none_iff_forall_not_mem]
    intro b' hb'
    obtain ⟨b, hb, -⟩ := SsaFunction.block?_forall₂ hblocks.flip (fun b' b h => by rw [h.same]) hb'
    rw [hnone] at hb
    cases hb
  obtain ⟨b', hblock', hboth⟩ := SsaFunction.block?_forall₂ hblocks (fun b b' h => by rw [h.same])
    hblock
  refine ⟨b', hblock', by rw [hboth.same], hboth.ops.length_eq.symm, fun p values _ _ => ?_, ?_⟩
  · rw [hboth.same]
  · intro i op op' hop hop'
    obtain ⟨op'', hop'', consts, hstep, hfold⟩ := Edits.forall₂_getElem? hboth.ops hop
    obtain rfl := Option.some.inj (hop'.symm.trans hop'')
    cases hdst : op.dst with
    | none =>
      rw [foldOp_of_dst_none hdst] at hfold
      subst hfold
      exact ⟨hdst, fun _ _ _ => rfl⟩
    | some v =>
      rw [foldOp_eq hdst] at hfold
      cases hfolded : op.folded consts with
      | none =>
        rw [hfolded] at hfold
        subst hfold
        exact ⟨hdst, fun _ _ _ => rfl⟩
      | some c =>
        rw [hfolded] at hfold
        subst hfold
        obtain ⟨o, ho⟩ := SsaOp.operand_of_folded hfolded
        refine ⟨by cases c <;> exact hdst, fun values s hinv => ?_⟩
        rw [SsaOp.foldWith, hm.loads _ c _ s (SsaOp.loads_loadConst ho c)]
        exact (hinv.exec hm hids hnodup hstrict hloads hneg hblock hop hdst
          (Or.inr ⟨_, hstep, hdst, hfolded⟩) s).symm

/-- Constant folding keeps the events of every run, unless it folds to a negative zero. -/
theorem run_constantFolding (hm : Computes m num) (hids : (f.blocks.map SsaBlock.id).Nodup)
    (hnodup : f.defs.Nodup) (hstrict : f.Strict pred entry) (hloads : f.LoadsInt32)
    (hneg : f.NoNegZero) (n : Nat) (values : VarId → Value) (s : σ) :
    m.run (constantFolding f) n pred entry values s = m.run f n pred entry values s :=
  (constantFolding_inStep hm hids hnodup hstrict hloads hneg).run_eq
    (hm.keeps_consts hids hnodup hstrict hloads hneg)
    (FlowGraph.established_start hstrict.start _ values) n s

end Pass

/-! ### A machine that computes -/

theorem SsaOp.constVal_mapOperands (op : SsaOp) (τ : VarId → VarId) :
    (op.mapOperands (SsaOperand.mapVar τ)).constVal = op.constVal := by
  have hsecond : (op.mapOperands (SsaOperand.mapVar τ)).operands[1]? =
      op.operands[1]?.map (SsaOperand.mapVar τ) := List.getElem?_map
  have hname : (op.mapOperands (SsaOperand.mapVar τ)).name = op.name := rfl
  unfold constVal
  rw [hsecond, hname]
  cases op.operands[1]? with
  | none => rfl
  | some o =>
    cases o with
    | var v =>
      simp only [Option.map_some, SsaOperand.mapVar]
      split <;> simp_all
    | _ => rfl

theorem SsaOp.constDouble_mapOperands (op : SsaOp) (τ : VarId → VarId) :
    (op.mapOperands (SsaOperand.mapVar τ)).constDouble = op.constDouble := by
  have hsecond : (op.mapOperands (SsaOperand.mapVar τ)).operands[1]? =
      op.operands[1]?.map (SsaOperand.mapVar τ) := List.getElem?_map
  have hname : (op.mapOperands (SsaOperand.mapVar τ)).name = op.name := rfl
  unfold constDouble
  rw [hsecond, hname]
  cases op.operands[1]? with
  | none => rfl
  | some o =>
    cases o with
    | var v =>
      simp only [Option.map_some, SsaOperand.mapVar]
      split <;> simp_all
    | _ => rfl

/-- The number of operand `i`. -/
def readNumber (op : SsaOp) (values : List (Option Float)) (i : Nat) : Option Float :=
  (values[op.readIndex i]?).join

def calculate (name : String) (x y : Float) : Option Float :=
  if bitwiseOps.contains name then (bitwiseResult name (toInt x) (toInt y)).map ofInt
  else if name = "Mod" then jsNumeric name (toInt x) (toInt y)
  else jsDouble name x y

def calculatorValue (op : SsaOp) (values : List (Option Float)) : Option Float :=
  match op.constVal, op.constDouble with
  | some n, _ => some (ofInt n)
  | none, some bits => some (.ofBits bits)
  | none, none =>
    if op.name = "Mov" ∨ op.name = "MovLong" then readNumber op values 1
    else do calculate op.name (← readNumber op values 1) (← readNumber op values 2)

/-- Where nothing is computed, an operation without a destination shows what it reads. -/
def calculator : Machine (Option Float) Unit (List (Option Float)) where
  exec op values s :=
    let value := calculatorValue op.unnamed values
    ⟨value, s, if value.isNone && op.unnamed.dst.isNone then [values] else [], false, 0⟩
  same s s' := s = s'
  equiv := eq_equivalence
  congr := by
    rintro s _ rfl op values
    exact ⟨rfl, rfl, rfl, rfl, rfl⟩

section Calculator

variable {op : SsaOp} {values : VarId → Option Float}

theorem readNumber_of_operand {i : Nat} {v : VarId} (h : op.operands[i]? = some (.var v)) :
    readNumber op.unnamed (op.reads.map values) i = values v := by
  rw [readNumber, SsaOp.readIndex_unnamed, List.getElem?_map, SsaOp.getElem?_reads h]
  rfl

theorem name_of_constVal {n : Int} (h : op.constVal = some n) :
    op.name ∈ ["LoadConstZero", "LoadConstUInt8", "LoadConstInt"] := by
  unfold SsaOp.constVal at h
  split at h <;> simp_all

theorem name_of_constDouble {bits : UInt64} (h : op.constDouble = some bits) :
    op.name = "LoadConstDouble" := by
  unfold SsaOp.constDouble at h
  split at h <;> simp_all

theorem constVal_unnamed : op.unnamed.constVal = op.constVal :=
  op.constVal_mapOperands fun _ => ⟨0, 0⟩

theorem constDouble_unnamed : op.unnamed.constDouble = op.constDouble :=
  op.constDouble_mapOperands fun _ => ⟨0, 0⟩

/-- The operations that the machine computes on two numbers. -/
def computedNames : List String :=
  bitwiseOps ++ numericOps ++ ["Add"]

theorem calculatorValue_pair {x y : Float} (hname : op.name ∈ computedNames)
    (h : op.ReadsPair values (some x) (some y)) :
    calculatorValue op.unnamed (op.reads.map values) = calculate op.name x y := by
  obtain ⟨a, b, ha, hb, hx, hy⟩ := h
  have hall : ∀ n ∈ computedNames, n ∉ ["LoadConstZero", "LoadConstUInt8", "LoadConstInt"] ∧
      n ≠ "LoadConstDouble" ∧ ¬(n = "Mov" ∨ n = "MovLong") := by decide
  obtain ⟨hint, hdouble, hmov⟩ := hall op.name hname
  have hval : op.constVal = none := by
    by_contra hne
    obtain ⟨n, hn⟩ := Option.ne_none_iff_exists'.mp hne
    exact hint (name_of_constVal hn)
  have hbits : op.constDouble = none := by
    by_contra hne
    obtain ⟨bits, hbits⟩ := Option.ne_none_iff_exists'.mp hne
    exact hdouble (name_of_constDouble hbits)
  have hunnamed : op.unnamed.name = op.name := rfl
  simp only [calculatorValue, constVal_unnamed, constDouble_unnamed, hval, hbits, hunnamed,
    if_neg hmov, readNumber_of_operand ha, readNumber_of_operand hb, hx, hy]
  rfl

theorem exec_calculator {value : Float} {args : List (Option Float)}
    (h : calculatorValue op.unnamed args = some value) (s : Unit) :
    calculator.exec op args s = gives (some value) s := by
  simp [calculator, h, gives]

theorem eq_of_hasBit {n n' : Int} (hn : IsInt32 n) (hn' : IsInt32 n')
    (h : ∀ i < 32, HasBit n i ↔ HasBit n' i) : n = n' := by
  have hbits : BitVec.ofInt 32 n = BitVec.ofInt 32 n' := BitVec.eq_of_getLsbD_eq fun i hi =>
    Bool.eq_iff_iff.mpr (by rw [← hasBit_ofInt n hi, ← hasBit_ofInt n' hi, h i hi])
  have hkeep : ∀ k : Int, IsInt32 k → (BitVec.ofInt 32 k).toInt = k := by
    intro k hk
    have hdef : toInt32 k = if k % 2 ^ 32 < 2 ^ 31 then k % 2 ^ 32 else k % 2 ^ 32 - 2 ^ 32 := rfl
    simp only [IsInt32, i32Min, i32Max] at hk
    rw [toInt_ofInt_eq, hdef]
    split <;> omega
  rw [← hkeep n hn, hbits, hkeep n' hn']

theorem bitwiseResult_of_jsBitwise {name : String} {l r n : Int} (h : JsBitwise name l r n) :
    bitwiseResult name l r = some n := by
  obtain ⟨n', hn'⟩ := Option.isSome_iff_exists.mp
    ((bitwiseResult_isSome name l r).mpr (mem_bitwiseOps_of_jsBitwise h))
  have h' := jsBitwise_of_bitwiseResult hn'
  rw [hn', Option.some.injEq]
  unfold JsBitwise at h h'
  dsimp only at h h'
  split at h
  · exact eq_of_hasBit h'.1 h.1 fun i hi => (h'.2 i hi).trans (h.2 i hi).symm
  · exact eq_of_hasBit h'.1 h.1 fun i hi => (h'.2 i hi).trans (h.2 i hi).symm
  · exact eq_of_hasBit h'.1 h.1 fun i hi => (h'.2 i hi).trans (h.2 i hi).symm
  · exact h'.trans h.symm
  · exact h'.trans h.symm
  · exact h'.trans h.symm
  · exact h.elim

theorem calculator_computes : Computes calculator some where
  loads op c args s hload := by
    refine exec_calculator ?_ s
    cases c with
    | int n =>
      have hval : op.constVal = some n := hload
      simp only [calculatorValue, constVal_unnamed, hval, FoldedConst.float]
    | double bits =>
      have hbits : op.constDouble = some bits := hload
      have hval : op.constVal = none := by
        by_contra hne
        obtain ⟨n, hn⟩ := Option.ne_none_iff_exists'.mp hne
        have hname := name_of_constVal hn
        rw [name_of_constDouble hbits] at hname
        revert hname
        decide
      simp only [calculatorValue, constVal_unnamed, constDouble_unnamed, hval, hbits,
        FoldedConst.float]
  bitwise op values l r n s hl hr hbit hpair := by
    have hmem := mem_bitwiseOps_of_jsBitwise hbit
    refine exec_calculator ?_ s
    rw [calculatorValue_pair (List.mem_append_left _ (List.mem_append_left _ hmem)) hpair, calculate,
      if_pos (List.contains_iff_mem.mpr hmem), toInt_ofInt hl.natAbs_le, toInt_ofInt hr.natAbs_le,
      bitwiseResult_of_jsBitwise hbit]
    rfl
  numeric op values l r x s hl hr hnumeric hpair := by
    have hmem : op.name ∈ numericOps := by
      unfold jsNumeric at hnumeric
      split at hnumeric <;> simp_all [numericOps]
    have hbit : bitwiseOps.contains op.name = false := by
      rw [← Bool.not_eq_true, List.contains_iff_mem]
      exact not_mem_bitwiseOps hmem
    refine exec_calculator ?_ s
    rw [calculatorValue_pair (List.mem_append_left _ (List.mem_append_right _ hmem)) hpair, calculate,
      hbit, if_neg Bool.false_ne_true]
    split
    · rwa [toInt_ofInt hl.natAbs_le, toInt_ofInt hr.natAbs_le]
    · next hmod =>
      unfold jsNumeric at hnumeric
      unfold jsDouble
      split at hnumeric <;> simp_all
  doubles op values x y z s hdouble hpair := by
    have hmem : op.name ∈ ["Add", "AddN", "Sub", "SubN", "Mul", "MulN", "Div", "DivN"] := by
      unfold jsDouble at hdouble
      split at hdouble <;> simp_all
    have hall : ∀ n ∈ ["Add", "AddN", "Sub", "SubN", "Mul", "MulN", "Div", "DivN"],
        n ∈ computedNames ∧ bitwiseOps.contains n = false ∧ n ≠ "Mod" := by decide
    obtain ⟨hcomputed, hbit, hmod⟩ := hall op.name hmem
    refine exec_calculator ?_ s
    rw [calculatorValue_pair hcomputed hpair, calculate, hbit, if_neg Bool.false_ne_true, if_neg hmod]
    exact hdouble

end Calculator

instance (name : String) (l r : Int) : Decidable (NegZeroResult name l r) :=
  inferInstanceAs (Decidable (_ ∨ _ ∨ _))

theorem SsaFunction.noNegZero_of_all {f : SsaFunction} (h : ∀ e ∈ f.foldSteps,
    ∀ x ∈ e.2.intOperands e.1, ¬ NegZeroResult e.2.name x.1 x.2) : f.NoNegZero :=
  fun e he _ l r hops => h e he (l, r) hops

/-- The product of two loads is folded. -/
theorem run_constantFolding_productOfLoads :
    calculator.run (constantFolding (productOfLoads 6 7)) 1 0 0 (fun _ => none) () =
      calculator.run (productOfLoads 6 7) 1 0 0 (fun _ => none) () :=
  run_constantFolding calculator_computes (by decide) (by decide)
    (SsaFunction.ReadsLocally.strict (by decide) 0 0)
    (loadsInt32_productOfLoads (by decide) (by decide))
    (SsaFunction.noNegZero_of_all (by decide)) 1 (fun _ => none) ()

/-! ## Behind build_ssa -/

section Pipeline

variable {cfg : Cfg} {built : BuiltSsa} {program : SsaFunction} {synth : List VarId}
  {versions : BlockId → Nat → Option VarId} {Value τ Event : Type} {m : Machine Value τ Event}
  {num : Float → Value} {undef : Value}

end Pipeline

end Hermes.Decompile
