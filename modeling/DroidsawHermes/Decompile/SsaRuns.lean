-- SUMMARY: What `build_ssa` returns beside the program on the registers, with the current versions of every block.
import DroidsawHermes.Decompile.SsaForm
import DroidsawHermes.Decompile.Versions

/-!
# Runs through SSA construction

The program on the registers is what the first pass of `build_ssa` makes with a builder that
never renames. With a builder whose reads are versions in the sense of `ReadsVersions`, what
`build_ssa` returns is this program with phis and synthetic loads in it.
-/

namespace Hermes.Decompile

/-! ## The program on the registers -/

/-- Every register is its own version. -/
def registerBuilder : CommonBuilder Unit where
  new := ()
  readVariable _ _ _ reg := .ok (⟨reg, 0⟩, ())
  newVar _ reg := .ok (⟨reg, 0⟩, ())
  writeVariable _ _ _ _ := ()
  sealPhis _ _ := .ok ()
  takePhis _ _ := ([], ())

def registerProgram (types : DecodedInst → List OpType) (cfg : Cfg) (frameSize : Nat) :
    Except HermesError SsaFunction := do
  let w ← walkBlocks registerBuilder types cfg frameSize
  .ok ⟨w.blocks⟩

/-! ## The first pass with two builders -/

/-- An operand beside the one on the registers, with the call that has read it. -/
inductive OperandAt (calls : List Call) (bid : BlockId) (w : Nat → Option VarId) :
    SsaOperand → SsaOperand → Prop
  | same {o} : o.var? = none → OperandAt calls bid w o o
  | read {before after r v} : calls = before ++ .read bid r v :: after → written before bid = w →
      OperandAt calls bid w (.var v) (.var ⟨r, 0⟩)

/-- An operation beside the one on the registers; `w` has the versions written before it. -/
structure OpAt (calls : List Call) (bid : BlockId) (w : Nat → Option VarId) (op op' : SsaOp) :
    Prop where
  name : op'.name = op.name
  original : op'.original = op.original
  dst : op'.dst = op.dst.map VarId.register
  made : ∀ v, op.dst = some v → v ∈ calls.filterMap Call.newVar?
  operands : List.Forall₂ (OperandAt calls bid w) op.operands op'.operands

/-- The operations of a block, which are all that it has written. -/
structure OpsAt (calls : List Call) (bid : BlockId) (ops ops' : List SsaOp) : Prop where
  length : ops'.length = ops.length
  each : ∀ i op op', ops[i]? = some op → ops'[i]? = some op' →
    OpAt calls bid (versionsBehind [] (fun _ => none) (ops.take i)) op op'
  written : written calls bid = versionsBehind [] (fun _ => none) ops

structure BlockAt (cfg : Cfg) (calls : List Call) (b b' : SsaBlock) : Prop where
  same : b' = { b with ops := b'.ops }
  phis : b.phis = []
  source : ∃ block, cfg.blocks.get? b.id = some block ∧ b.successors = block.successors
  ops : OpsAt calls b.id b.ops b'.ops

section Walk

variable {σ : Type} {B : CommonBuilder σ} {types : DecodedInst → List OpType} {g : SsaCfg}
  {calls : List Call} {bid : BlockId} {w : Nat → Option VarId}

theorem OperandAt.append (more : List Call) {o o' : SsaOperand} (h : OperandAt calls bid w o o') :
    OperandAt (calls ++ more) bid w o o' := by
  cases h with
  | same hvar => exact .same hvar
  | @read before after r v hcalls hwritten =>
    have hmore : calls ++ more = before ++ .read bid r v :: (after ++ more) := by
      rw [hcalls, List.append_assoc, List.cons_append]
    exact .read hmore hwritten

theorem OpAt.append (more : List Call) {op op' : SsaOp} (h : OpAt calls bid w op op') :
    OpAt (calls ++ more) bid w op op' :=
  ⟨h.name, h.original, h.dst, fun v hv => List.filterMap_append ▸ List.mem_append_left _ (h.made v hv),
    h.operands.imp fun _ _ => OperandAt.append more⟩

/-- What another block writes is no matter. -/
theorem OpsAt.append {ops ops' : List SsaOp} (h : OpsAt calls bid ops ops') (more : List Call)
    (hmore : Decompile.written (calls ++ more) bid = Decompile.written calls bid) :
    OpsAt (calls ++ more) bid ops ops' :=
  ⟨h.length, fun i op op' hop hop' => (h.each i op op' hop hop').append more, hmore.trans h.written⟩

/-- The operands so far, with both builders; the calls since the instruction are reads. -/
def OperandsAt (B : CommonBuilder σ) (g : SsaCfg) (calls : List Call) (bid : BlockId)
    (acc : List SsaOperand × σ) (acc' : List SsaOperand × Unit) : Prop :=
  ∃ reads, B.History g (calls ++ reads) acc.2 ∧ written (calls ++ reads) = written calls ∧
    List.Forall₂ (OperandAt (calls ++ reads) bid (written calls bid)) acc.1 acc'.1

theorem pushRead_at {acc acc₁ : List SsaOperand × σ} {acc' : List SsaOperand × Unit} {reg : Nat}
    (hbid : bid ∈ g.nodes) (h : OperandsAt B g calls bid acc acc')
    (hpush : pushRead B g bid acc reg = .ok acc₁) :
    ∃ acc₁', pushRead registerBuilder g bid acc' reg = .ok acc₁' ∧
      OperandsAt B g calls bid acc₁ acc₁' := by
  obtain ⟨⟨v, s⟩, hread, hpush⟩ := Loop.bind_eq_ok.mp hpush
  cases hpush
  obtain ⟨reads, hhistory, hwritten, hoperands⟩ := h
  refine ⟨_, rfl, reads ++ [.read bid reg v], ?_, ?_, ?_⟩
  · rw [← List.append_assoc]
    exact hhistory.read hbid hread
  · rw [← List.append_assoc, written_append_read, hwritten]
  · rw [← List.append_assoc]
    refine List.rel_append (hoperands.imp fun _ _ => OperandAt.append _)
      (List.Forall₂.cons (.read rfl ?_) .nil)
    rw [hwritten]

theorem pushOperand_at {acc acc₁ : List SsaOperand × σ} {acc' : List SsaOperand × Unit}
    {dst : Option Nat} {inst : DecodedInst} {x : Operand × Nat} (hbid : bid ∈ g.nodes)
    (h : OperandsAt B g calls bid acc acc') (hpush : pushOperand B g bid dst inst acc x = .ok acc₁) :
    ∃ acc₁', pushOperand registerBuilder g bid dst inst acc' x = .ok acc₁' ∧
      OperandsAt B g calls bid acc₁ acc₁' := by
  have hsame : ∀ o : SsaOperand, o.var? = none →
      OperandsAt B g calls bid (acc.1 ++ [o], acc.2) (acc'.1 ++ [o], acc'.2) := by
    intro o ho
    obtain ⟨reads, hhistory, hwritten, hoperands⟩ := h
    exact ⟨reads, hhistory, hwritten, List.rel_append hoperands (List.Forall₂.cons (.same ho) .nil)⟩
  simp only [pushOperand] at hpush ⊢
  cases hreg : x.1.asReg with
  | some r =>
    simp only [hreg] at hpush ⊢
    by_cases hdst : x.2 = 0 ∧ dst = some r
    · rw [if_pos hdst] at hpush
      cases hpush
      exact ⟨_, if_pos hdst, hsame _ rfl⟩
    · rw [if_neg hdst] at hpush ⊢
      exact pushRead_at hbid h hpush
  | none =>
    simp only [hreg] at hpush ⊢
    cases hpush
    refine ⟨_, rfl, hsame _ ?_⟩
    obtain ⟨o, i⟩ := x
    cases o with
    | reg r => cases hreg
    | reg32 r => cases hreg
    | uint n =>
      simp only [ssaOperand]
      split
      · rfl
      · split <;> rfl
    | int n => rfl
    | double bits => rfl
    | addr rel => rfl

theorem pushCallArgs_at {acc acc₁ : List SsaOperand × σ} {acc' : List SsaOperand × Unit}
    {frameSize totalInsns : Nat} {inst : DecodedInst} (hbid : bid ∈ g.nodes)
    (h : OperandsAt B g calls bid acc acc')
    (hpush : pushCallArgs B g bid frameSize totalInsns inst acc = .ok acc₁) :
    ∃ acc₁', pushCallArgs registerBuilder g bid frameSize totalInsns inst acc' = .ok acc₁' ∧
      OperandsAt B g calls bid acc₁ acc₁' := by
  simp only [pushCallArgs] at hpush ⊢
  cases hargc : argcForResolve inst with
  | none =>
    simp only [hargc] at hpush
    cases hpush
    exact ⟨_, rfl, h⟩
  | some e =>
    obtain ⟨argc, label, includeThis⟩ := e
    simp only [hargc] at hpush
    dsimp only
    split at hpush
    · cases hpush
    · next hfew =>
      rw [if_neg hfew]
      split at hpush
      · next hsmall =>
        cases hpush
        rw [if_pos hsmall]
        exact ⟨_, rfl, h⟩
      · next hlarge =>
        rw [if_neg hlarge]
        obtain ⟨acc₂, hthis, hargs⟩ := Loop.bind_eq_ok.mp hpush
        have hthis' : ∃ acc₂', pushThis registerBuilder g bid (frameSize - 9) includeThis acc' =
            .ok acc₂' ∧ OperandsAt B g calls bid acc₂ acc₂' := by
          rw [pushThis] at hthis ⊢
          split at hthis
          · next hinclude =>
            rw [if_pos hinclude]
            exact pushRead_at hbid h hthis
          · next hno =>
            rw [if_neg hno]
            cases hthis
            exact ⟨_, rfl, h⟩
        obtain ⟨acc₂', hthis', h₂⟩ := hthis'
        obtain ⟨acc₁', hargs', h₁⟩ := Loop.foldlM_simulate
          (pushArg registerBuilder g bid (frameSize - 9) (argc - 1) label)
          (OperandsAt B g calls bid)
          (fun t t' i s' _ ht hstep => by
            simp only [pushArg] at hstep ⊢
            split at hstep
            · next hle =>
              rw [if_pos hle]
              exact pushRead_at hbid ht hstep
            · cases hstep) h₂ hargs
        exact ⟨acc₁', by rw [hthis', Loop.ok_bind, hargs'], h₁⟩

/-- What is known of the block so far, with both builders. -/
def InBlockAt (B : CommonBuilder σ) (g : SsaCfg) (calls : List Call) (bid : BlockId)
    (acc : List SsaOp × OrdMap Nat VarId × σ) (acc' : List SsaOp × OrdMap Nat VarId × Unit) :
    Prop :=
  ∃ more, B.History g (calls ++ more) acc.2.2 ∧ OpsAt (calls ++ more) bid acc.1 acc'.1 ∧
    ∀ b ≠ bid, written (calls ++ more) b = written calls b

theorem OpsAt.snoc {ops ops' : List SsaOp} {op op' : SsaOp} (h : OpsAt calls bid ops ops')
    (more : List Call) (hop : OpAt (calls ++ more) bid (versionsBehind [] (fun _ => none) ops) op op')
    (hwritten : Decompile.written (calls ++ more) bid =
      writeVersion [] (versionsBehind [] (fun _ => none) ops) op) :
    OpsAt (calls ++ more) bid (ops ++ [op]) (ops' ++ [op']) := by
  refine ⟨by simp [h.length], fun i o o' ho ho' => ?_, ?_⟩
  · rcases Nat.lt_or_ge i ops.length with hlt | hge
    · rw [List.getElem?_append_left hlt] at ho
      rw [List.getElem?_append_left (by rw [h.length]; exact hlt)] at ho'
      rw [List.take_append_of_le_length (Nat.le_of_lt hlt)]
      exact (h.each i o o' ho ho').append more
    · obtain rfl : i = ops.length := by
        have hbound := (List.getElem?_eq_some_iff.mp ho).1
        rw [List.length_append, List.length_singleton] at hbound
        omega
      rw [List.getElem?_append_right (Nat.le_refl _), Nat.sub_self] at ho
      rw [List.getElem?_append_right (Nat.le_of_eq h.length), h.length, Nat.sub_self] at ho'
      obtain rfl := Option.some.inj ho
      obtain rfl := Option.some.inj ho'
      rw [List.take_append_of_le_length (Nat.le_refl _), List.take_length]
      exact hop
  · rw [hwritten, versionsBehind, versionsBehind, List.foldl_append]
    rfl

theorem writeDst_registers (s : Unit) (bid : BlockId) (reg : Nat) :
    writeDst registerBuilder s bid (some reg) = .ok (some ⟨reg, 0⟩, ()) := rfl

theorem walkInst_at (hB : ∀ s reg v s', B.newVar s reg = .ok (v, s') → v.reg = reg)
    {frameSize totalInsns : Nat} {inst : DecodedInst}
    {acc acc₁ : List SsaOp × OrdMap Nat VarId × σ} {acc' : List SsaOp × OrdMap Nat VarId × Unit}
    (hbid : bid ∈ g.nodes) (h : InBlockAt B g calls bid acc acc')
    (hwalk : walkInst B types g bid frameSize totalInsns acc inst = .ok acc₁) :
    ∃ acc₁', walkInst registerBuilder types g bid frameSize totalInsns acc' inst = .ok acc₁' ∧
      InBlockAt B g calls bid acc₁ acc₁' := by
  obtain ⟨operands, hoperands, hwalk⟩ := Loop.bind_eq_ok.mp hwalk
  obtain ⟨⟨operands₁, s⟩, hargs, hwalk⟩ := Loop.bind_eq_ok.mp hwalk
  obtain ⟨⟨dst, s'⟩, hwrite, hwalk⟩ := Loop.bind_eq_ok.mp hwalk
  cases hwalk
  obtain ⟨more, hhistory, hops, hothers⟩ := h
  have hnil : OperandsAt B g (calls ++ more) bid ([], acc.2.2) ([], acc'.2.2) :=
    ⟨[], by rwa [List.append_nil], by rw [List.append_nil], .nil⟩
  obtain ⟨operands', hoperands', hread⟩ := Loop.foldlM_simulate
    (pushOperand registerBuilder g bid (classifyInst (types inst) inst) inst)
    (OperandsAt B g (calls ++ more) bid)
    (fun t t' x s' _ ht hstep => pushOperand_at hbid ht hstep) hnil hoperands
  obtain ⟨⟨operands₁', _⟩, hargs', reads, hhistory', hsame, hboth⟩ :=
    pushCallArgs_at hbid hread hargs
  have hw : written (calls ++ more) bid = versionsBehind [] (fun _ => none) acc.1 := hops.written
  rw [hw] at hboth
  cases hdst : classifyInst (types inst) inst with
  | none =>
    rw [hdst] at hwrite hoperands'
    cases hwrite
    refine ⟨(acc'.1 ++ [⟨inst.name, none, operands₁', inst⟩],
      addParam ⟨inst.name, none, operands₁', inst⟩ acc'.2.1, ()), ?_, more ++ reads, ?_, ?_, ?_⟩
    · simp only [walkInst, hoperands', hargs', hdst, writeDst, Loop.ok_bind]
    · rw [← List.append_assoc]
      exact hhistory'
    · rw [← List.append_assoc]
      refine hops.snoc reads ⟨rfl, rfl, rfl, nofun, hboth⟩ ?_
      rw [hsame, hw]
      rfl
    · intro b hb
      rw [← List.append_assoc, hsame, hothers b hb]
  | some reg =>
    rw [hdst] at hwrite hoperands'
    obtain ⟨⟨v, s₁⟩, hnew, hwrite⟩ := Loop.bind_eq_ok.mp hwrite
    cases hwrite
    have hreg := hB _ _ _ _ hnew
    let tail := [Call.newVar reg v, .write bid reg v]
    have hlast : ∀ b, written (calls ++ more ++ (reads ++ tail)) b =
        fun r => if b = bid ∧ r = reg then some v else written (calls ++ more) b r := by
      intro b
      funext r
      have hsplit : calls ++ more ++ (reads ++ tail) =
          (calls ++ more ++ reads ++ [.newVar reg v]) ++ [.write bid reg v] := by
        simp [tail, List.append_assoc]
      rw [hsplit, written_append_write, written_append_newVar, hsame]
    refine ⟨(acc'.1 ++ [⟨inst.name, some ⟨reg, 0⟩, operands₁', inst⟩],
      addParam ⟨inst.name, some ⟨reg, 0⟩, operands₁', inst⟩ acc'.2.1, ()), ?_,
      more ++ (reads ++ tail), ?_, ?_, ?_⟩
    · simp only [walkInst, hoperands', hargs', hdst, writeDst_registers, Loop.ok_bind]
    · have hsplit : calls ++ (more ++ (reads ++ tail)) =
          (calls ++ more ++ reads ++ [.newVar reg v]) ++ [.write bid reg v] := by
        simp [tail, List.append_assoc]
      rw [hsplit]
      exact (hhistory'.newVar hnew).write hbid (List.mem_append_right _ List.mem_cons_self)
    · rw [← List.append_assoc]
      refine hops.snoc (reads ++ tail) ⟨rfl, rfl, ?_, fun u hu => ?_, ?_⟩ ?_
      · simp [VarId.register, hreg]
      · obtain rfl := Option.some.inj hu
        simp [tail, Call.newVar?]
      · rw [← List.append_assoc]
        exact hboth.imp fun _ _ => OperandAt.append tail
      · rw [hlast, hw]
        funext r
        simp only [writeVersion, List.not_mem_nil, if_false, hreg, Function.update_apply, true_and]
    · intro b hb
      rw [← List.append_assoc, hlast b, ← hothers b hb]
      funext r
      exact if_neg fun heq => hb heq.1

theorem forall₂_imp_left {α β : Type} {R S : α → β → Prop} {l : List α} {l' : List β}
    (h : List.Forall₂ R l l') (himp : ∀ a ∈ l, ∀ b, R a b → S a b) : List.Forall₂ S l l' := by
  induction h with
  | nil => exact .nil
  | cons hab _ ih =>
    rw [List.forall_mem_cons] at himp
    exact .cons (himp.1 _ hab) (ih himp.2)

/-- What the walk has made, with both builders. -/
structure WalkAt (B : CommonBuilder σ) (cfg : Cfg) (calls : List Call) (w : Walk σ)
    (w' : Walk Unit) : Prop where
  history : B.History (cfgAdapter cfg) calls w.builder
  blocks : List.Forall₂ (BlockAt cfg calls) w.blocks w'.blocks
  others : ∀ b ∉ w.blocks.map SsaBlock.id, written calls b = fun _ => none

theorem walkBlock_at (hB : ∀ s reg v s', B.newVar s reg = .ok (v, s') → v.reg = reg) {cfg : Cfg}
    {frameSize totalInsns : Nat} {w w₁ : Walk σ} {w' : Walk Unit} (hbid : bid ∈ cfg.blocks.keys)
    (hnew : bid ∉ w.blocks.map SsaBlock.id) (h : WalkAt B cfg calls w w')
    (hwalk : walkBlock B types cfg frameSize totalInsns w bid = .ok w₁) :
    ∃ w₁' more, walkBlock registerBuilder types cfg frameSize totalInsns w' bid = .ok w₁' ∧
      WalkAt B cfg (calls ++ more) w₁ w₁' ∧
      w₁.blocks.map SsaBlock.id = w.blocks.map SsaBlock.id ++ [bid] := by
  obtain ⟨block, hblock⟩ := OrdMap.mem_keys_iff.mp hbid
  simp only [walkBlock, hblock] at hwalk
  obtain ⟨⟨ops, params, s⟩, hops, hwalk⟩ := Loop.bind_eq_ok.mp hwalk
  cases hwalk
  have hstart : InBlockAt B (cfgAdapter cfg) calls bid ([], w.params, w.builder)
      ([], w'.params, w'.builder) := by
    refine ⟨[], ?_, ⟨rfl, fun _ _ _ hop => (by cases hop), ?_⟩, fun b _ => by rw [List.append_nil]⟩
    · rw [List.append_nil]
      exact h.history
    · rw [List.append_nil, h.others bid hnew]
      rfl
  obtain ⟨⟨ops', params', _⟩, hops', more, hhistory, hopsAt, hothers⟩ := Loop.foldlM_simulate
    (walkInst registerBuilder types (cfgAdapter cfg) bid frameSize totalInsns)
    (InBlockAt B (cfgAdapter cfg) calls bid)
    (fun t t' inst s' _ ht hstep => walkInst_at hB hbid ht hstep) hstart hops
  refine ⟨⟨w'.blocks ++ [⟨bid, [], ops', block.successors, block.predecessors⟩], params', ()⟩, more,
    ?_, ⟨hhistory, List.rel_append ?_ (List.Forall₂.cons ?_ .nil), fun b hb => ?_⟩, by simp⟩
  · simp only [walkBlock, hblock, hops', Loop.ok_bind]
  · refine forall₂_imp_left h.blocks fun b hb b' hat => ?_
    have hne : b.id ≠ bid := fun heq => hnew (heq ▸ List.mem_map_of_mem hb)
    exact ⟨hat.same, hat.phis, hat.source, hat.ops.append more (hothers b.id hne)⟩
  · exact ⟨rfl, rfl, ⟨block, hblock, rfl⟩, hopsAt⟩
  · simp only [List.map_append, List.map_cons, List.map_nil, List.mem_append, List.mem_singleton,
      not_or] at hb
    rw [hothers b hb.2]
    exact h.others b hb.1

theorem foldlM_walkBlock_at (hB : ∀ s reg v s', B.newVar s reg = .ok (v, s') → v.reg = reg)
    {cfg : Cfg} {frameSize totalInsns : Nat} {order : List BlockId} {w w₁ : Walk σ} {w' : Walk Unit}
    (horder : ∀ id ∈ order, id ∈ cfg.blocks.keys)
    (hnodup : (w.blocks.map SsaBlock.id ++ order).Nodup) (h : WalkAt B cfg calls w w')
    (hwalk : order.foldlM (walkBlock B types cfg frameSize totalInsns) w = .ok w₁) :
    ∃ w₁' calls', order.foldlM (walkBlock registerBuilder types cfg frameSize totalInsns) w' =
      .ok w₁' ∧ WalkAt B cfg calls' w₁ w₁' := by
  induction order generalizing w w' calls with
  | nil =>
    cases hwalk
    exact ⟨w', calls, rfl, h⟩
  | cons bid order ih =>
    obtain ⟨hbid, horder⟩ := List.forall_mem_cons.mp horder
    rw [List.foldlM_cons] at hwalk
    obtain ⟨w₂, hstep, hrest⟩ := Loop.bind_eq_ok.mp hwalk
    have hnew : bid ∉ w.blocks.map SsaBlock.id := fun hmem =>
      List.disjoint_of_nodup_append hnodup hmem List.mem_cons_self
    obtain ⟨w₂', more, hstep', h₂, hids⟩ := walkBlock_at hB hbid hnew h hstep
    obtain ⟨w₁', calls', hrest', h₁⟩ := ih horder
      (by rw [hids, List.append_assoc]; exact hnodup) h₂ hrest
    exact ⟨w₁', calls', by rw [List.foldlM_cons, hstep', Loop.ok_bind, hrest'], h₁⟩

end Walk

/-! ## The function before the post-pass -/

section Renamed

variable {synth : List VarId} {current : Nat → Option VarId}

/-- What is not written is what was there before. -/
theorem versionsBehind_or (ops : List SsaOp) (r : Nat) :
    versionsBehind synth current ops r =
      (versionsBehind synth (fun _ => none) ops r).or (current r) := by
  have hstart : ∀ w : Nat → Option VarId, versionsBehind synth (fun r => (w r).or (current r)) ops r =
      (versionsBehind synth w ops r).or (current r) := by
    induction ops with
    | nil => exact fun _ => rfl
    | cons op ops ih =>
      intro w
      rw [versionsBehind, List.foldl_cons, versionsBehind, List.foldl_cons]
      have hwrite : writeVersion synth (fun r => (w r).or (current r)) op =
          fun r => (writeVersion synth w op r).or (current r) := by
        funext r
        cases hdst : op.dst with
        | none => simp only [writeVersion, hdst]
        | some v =>
          simp only [writeVersion, hdst]
          by_cases hv : v ∈ synth
          · simp only [if_pos hv]
          · by_cases hr : r = v.reg <;> simp [hv, hr]
      rw [hwrite]
      exact ih (writeVersion synth w op)
  simpa using hstart fun _ => none

/-- Operations that define none of the variables do not tell whether they count. -/
theorem versionsBehind_of_disjoint {ops : List SsaOp}
    (h : ∀ op ∈ ops, ∀ v, op.dst = some v → v ∉ synth) :
    versionsBehind synth current ops = versionsBehind [] current ops := by
  induction ops generalizing current with
  | nil => rfl
  | cons op ops ih =>
    rw [List.forall_mem_cons] at h
    have hwrite : writeVersion synth current op = writeVersion [] current op := by
      cases hdst : op.dst with
      | none => simp only [writeVersion, hdst]
      | some v => simp [writeVersion, hdst, h.1 v hdst]
    rw [versionsBehind, List.foldl_cons, hwrite]
    exact ih h.2

theorem versionsBehind_synthetic {vars : List VarId} (h : ∀ v ∈ vars, v ∈ synth) (ops : List SsaOp) :
    versionsBehind synth current (vars.map syntheticOp ++ ops) = versionsBehind synth current ops := by
  induction vars with
  | nil => rfl
  | cons v vars ih =>
    rw [List.forall_mem_cons] at h
    have hwrite : writeVersion synth current (syntheticOp v) = current := if_pos h.1
    rw [List.map_cons, List.cons_append, versionsBehind, List.foldl_cons, hwrite]
    exact ih h.2

variable {g : SsaCfg} {calls : List Call} {phis : BlockId → List Phi} {bid : BlockId}
  {versions : BlockId → Nat → Option VarId} {w : Nat → Option VarId}

/-- An operand is the version of its register that is current. -/
theorem EntryVersions.operand (h : EntryVersions g calls phis versions) (hw : OwnVersions w)
    {o o' : SsaOperand} (hat : OperandAt calls bid w o o') :
    o' = o.mapVar VarId.register ∧ ∀ v, o = .var v → (w v.reg).or (versions bid v.reg) = some v := by
  cases hat with
  | same hvar =>
    constructor
    · cases o <;> first | rfl | cases hvar
    · rintro v rfl
      cases hvar
  | @read before after r v hcalls hwritten =>
    have hread := h.read before after bid r v hcalls
    rw [hwritten] at hread
    have hreg : v.reg = r := by
      rcases Option.or_eq_some_iff.mp hread with hv | ⟨-, hv⟩
      · exact hw r v hv
      · exact h.own bid r v hv
    refine ⟨by rw [SsaOperand.mapVar, VarId.register, hreg], fun u hu => ?_⟩
    cases hu
    rw [hreg]
    exact hread

theorem ownVersions_behind (ops : List SsaOp) :
    OwnVersions (versionsBehind synth (fun _ => none) ops) := by
  refine OwnVersions.behind (fun r v hv => ?_) ops
  cases hv

theorem EntryVersions.atRegisters (h : EntryVersions g calls phis versions) {w : Nat → Option VarId}
    (hw : OwnVersions w) {op op' : SsaOp} (hat : OpAt calls bid w op op') : op' = op.atRegisters := by
  have hoperands : op'.operands = op.operands.map (SsaOperand.mapVar VarId.register) := by
    have hforall := hat.operands
    generalize op.operands = l at hforall
    generalize op'.operands = l' at hforall
    induction hforall with
    | nil => rfl
    | cons ho _ ih => rw [List.map_cons, ih, (h.operand hw ho).1]
  obtain ⟨name, dst, operands, original⟩ := op'
  obtain ⟨rfl, rfl, rfl⟩ := And.intro hat.name (And.intro hat.original hat.dst)
  exact congrArg (fun l => SsaOp.mk _ _ l _) hoperands

theorem EntryVersions.map_atRegisters (h : EntryVersions g calls phis versions)
    {ops ops' : List SsaOp} (hat : OpsAt calls bid ops ops') : ops' = ops.map SsaOp.atRegisters := by
  refine List.ext_getElem? fun i => ?_
  rw [List.getElem?_map]
  cases hop : ops[i]? with
  | none =>
    rw [Option.map_none, List.getElem?_eq_none_iff, hat.length]
    exact List.getElem?_eq_none_iff.mp hop
  | some op =>
    obtain ⟨op', hop'⟩ : ∃ op', ops'[i]? = some op' := by
      have hlt := (List.getElem?_eq_some_iff.mp hop).1
      exact ⟨_, List.getElem?_eq_getElem (hat.length.symm ▸ hlt)⟩
    rw [hop', Option.map_some, h.atRegisters (ownVersions_behind _) (hat.each i op op' hop hop')]

end Renamed

/-- The predecessors of a block are all blocks that it is a successor of. -/
def Cfg.ListsPredecessors (cfg : Cfg) : Prop :=
  ∀ p block id target, cfg.blocks.get? p = some block → cfg.blocks.get? id = some target →
    id ∈ block.successors → p ∈ target.predecessors

section Drained

variable {σ : Type} {B : CommonBuilder σ} {cfg : Cfg} {calls : List Call} {s : σ}
  {blocks blocks' : List SsaBlock} {versions : BlockId → Nat → Option VarId}

/-- The blocks with their phis. -/
def withPhis (B : CommonBuilder σ) (s : σ) (blocks : List SsaBlock) : SsaFunction :=
  ⟨blocks.map fun b => { b with phis := (B.takePhis s b.id).1 }⟩

theorem block?_withPhis {id : BlockId} {b : SsaBlock}
    (hat : List.Forall₂ (BlockAt cfg calls) blocks blocks')
    (hblock : (withPhis B s blocks).block? id = some b) :
    b.id = id ∧ b.phis = (B.takePhis s id).1 ∧
      (∃ block, cfg.blocks.get? id = some block ∧ b.successors = block.successors) ∧
      ∃ ops', OpsAt calls id b.ops ops' := by
  have hid := id_of_block? hblock
  obtain ⟨b₁, hb₁, rfl⟩ := List.mem_map.mp (mem_blocks_of_block? hblock)
  dsimp only at hid
  subst hid
  obtain ⟨i, hi⟩ := List.mem_iff_getElem?.mp hb₁
  obtain ⟨b', -, hboth⟩ := Edits.forall₂_getElem? hat hi
  exact ⟨rfl, rfl, hboth.source, _, hboth.ops⟩

theorem renamed_withPhis (hlists : cfg.ListsPredecessors)
    (hat : List.Forall₂ (BlockAt cfg calls) blocks blocks')
    (h : EntryVersions (cfgAdapter cfg) calls (fun b => (B.takePhis s b).1) versions) :
    (withPhis B s blocks).Renamed [] versions := by
  have hedge : ∀ {p b id b'}, (withPhis B s blocks).block? p = some b →
      (withPhis B s blocks).block? id = some b' → id ∈ b.successors →
      p ∈ Renaming.allPredecessors (cfgAdapter cfg) id := by
    intro p b id b' hp hid hsucc
    obtain ⟨-, -, ⟨block, hblock, hsuccs⟩, -⟩ := block?_withPhis hat hp
    obtain ⟨-, -, ⟨target, htarget, -⟩, -⟩ := block?_withPhis hat hid
    refine List.mem_append_left _ ?_
    simp only [cfgAdapter, htarget, Option.map_some, Option.getD_some]
    exact hlists p block id target hblock htarget (hsuccs ▸ hsucc)
  have hbehind : ∀ {p b} (r : Nat), (withPhis B s blocks).block? p = some b →
      versionsBehind [] (versions p) b.ops r = (written calls p r).or (versions p r) := by
    intro p b r hp
    obtain ⟨-, -, -, ops', hops⟩ := block?_withPhis hat hp
    rw [versionsBehind_or, hops.written]
  refine {
    own := h.own
    reads := ?_
    phi := ?_
    arg := ?_
    covered := ?_
    through := ?_
    undefined := fun _ _ _ hv => by cases hv
    undefined_phi := fun _ _ hv => by cases hv }
  · intro id b i op hblock hop v hv
    obtain ⟨-, -, -, ops', hops⟩ := block?_withPhis hat hblock
    obtain ⟨op', hop'⟩ : ∃ op', ops'[i]? = some op' := by
      have hlt := (List.getElem?_eq_some_iff.mp hop).1
      exact ⟨_, List.getElem?_eq_getElem (hops.length.symm ▸ hlt)⟩
    obtain ⟨j, hj⟩ := List.mem_iff_getElem?.mp (SsaOp.mem_reads.mp hv)
    obtain ⟨o', -, hoperand⟩ := Edits.forall₂_getElem? (hops.each i op op' hop hop').operands hj
    rw [versionsBehind_or]
    exact (h.operand (ownVersions_behind _) hoperand).2 v rfl
  · intro id b phi hblock hphi
    obtain ⟨-, hphis, -⟩ := block?_withPhis hat hblock
    exact h.phi id phi (hphis ▸ hphi)
  · intro p b' id b phi v hp hsucc hblock hphi hv
    obtain ⟨-, hphis, -⟩ := block?_withPhis hat hblock
    rw [hbehind _ hp]
    exact (h.arg id phi (hphis ▸ hphi) p v hv).2
  · intro p b' id b phi hp hsucc hblock hphi
    obtain ⟨-, hphis, -⟩ := block?_withPhis hat hblock
    exact h.covered id phi (hphis ▸ hphi) p (hedge hp hblock hsucc)
  · intro p b' id b r v hp hsucc hblock hv hno
    obtain ⟨-, hphis, -⟩ := block?_withPhis hat hblock
    rw [hbehind _ hp]
    exact h.through id r v p hv (hphis ▸ hno) (hedge hp hblock hsucc)

theorem registers_withPhis (hat : List.Forall₂ (BlockAt cfg calls) blocks blocks')
    (h : EntryVersions (cfgAdapter cfg) calls (fun b => (B.takePhis s b).1) versions) :
    (withPhis B s blocks).registers [] = ⟨blocks'⟩ := by
  rw [withPhis, SsaFunction.registers, List.map_map]
  congr 1
  induction hat with
  | nil => rfl
  | @cons b b' blocks blocks' hb _ ih =>
    rw [List.map_cons, ih]
    congr 1
    have hall : ∀ op : SsaOp, (!op.isSynthetic []) = true := by
      intro op
      cases hdst : op.dst <;> simp [SsaOp.isSynthetic, hdst]
    rw [hb.same, h.map_atRegisters hb.ops]
    simp only [Function.comp_apply, List.filter_eq_self.mpr fun op _ => hall op, hb.phis]

/-- What operations define the builder has handed out. -/
theorem defs_withPhis (hat : List.Forall₂ (BlockAt cfg calls) blocks blocks') {v : VarId}
    (hv : v ∈ (withPhis B s blocks).defs) : v ∈ calls.filterMap Call.newVar? ∨
      ∃ b, v ∈ (B.takePhis s b).1.map Phi.dst := by
  rcases SsaFunction.mem_defs.mp hv with ⟨phi, hphi, rfl⟩ | ⟨op, hop, hdst⟩
  · obtain ⟨b, hb, hphi⟩ := SsaFunction.mem_phis.mp hphi
    obtain ⟨b₁, -, rfl⟩ := List.mem_map.mp hb
    exact Or.inr ⟨b₁.id, List.mem_map_of_mem hphi⟩
  · obtain ⟨b, hb, hop⟩ := SsaFunction.mem_ops.mp hop
    obtain ⟨b₁, hb₁, rfl⟩ := List.mem_map.mp hb
    obtain ⟨i, hi⟩ := List.mem_iff_getElem?.mp hb₁
    obtain ⟨b', -, hboth⟩ := Edits.forall₂_getElem? hat hi
    obtain ⟨j, hj⟩ := List.mem_iff_getElem?.mp hop
    obtain ⟨op', hop'⟩ : ∃ op', b'.ops[j]? = some op' := by
      have hlt := (List.getElem?_eq_some_iff.mp hj).1
      exact ⟨_, List.getElem?_eq_getElem (hboth.ops.length.symm ▸ hlt)⟩
    exact Or.inl ((hboth.ops.each j op op' hj hop').made v hdst)

end Drained

/-! ## The post-pass -/

section Injected

variable {blocks : List SsaBlock} {versions : BlockId → Nat → Option VarId}

/-- The loads that the post-pass puts in front of a block. -/
def preamble (blocks : List SsaBlock) (id : BlockId) : List SsaOp :=
  if blocks.head?.map SsaBlock.id = some id then (undefinedVars blocks).map syntheticOp else []

theorem injectUndefined_eq (hids : (blocks.map SsaBlock.id).Nodup) :
    injectUndefined blocks = blocks.map fun b => { b with ops := preamble blocks b.id ++ b.ops } := by
  cases blocks with
  | nil => rfl
  | cons entry rest =>
    obtain ⟨hnew, -⟩ := List.nodup_cons.mp hids
    have hrest : rest.map (fun b => { b with ops := preamble (entry :: rest) b.id ++ b.ops }) =
        rest := by
      refine (List.map_congr_left fun b hb => ?_).trans (List.map_id rest)
      have hne : entry.id ≠ b.id := fun heq => hnew (heq ▸ List.mem_map_of_mem hb)
      simp [preamble, hne]
    rw [List.map_cons, hrest]
    simp [injectUndefined, preamble]

theorem block?_injectUndefined (hids : (blocks.map SsaBlock.id).Nodup) (id : BlockId) :
    (SsaFunction.mk (injectUndefined blocks)).block? id =
      ((SsaFunction.mk blocks).block? id).map fun b =>
        { b with ops := preamble blocks b.id ++ b.ops } := by
  rw [injectUndefined_eq hids, SsaFunction.block?, SsaFunction.block?, ← List.map_reverse,
    List.find?_map]
  rfl

theorem mem_preamble {id : BlockId} {op : SsaOp} (hop : op ∈ preamble blocks id) :
    ∃ v ∈ undefinedVars blocks, op = syntheticOp v := by
  rw [preamble] at hop
  split at hop
  · obtain ⟨v, hv, rfl⟩ := List.mem_map.mp hop
    exact ⟨v, hv, rfl⟩
  · cases hop

theorem versionsBehind_preamble (id : BlockId) {current : Nat → Option VarId} (ops : List SsaOp) :
    versionsBehind (undefinedVars blocks) current (preamble blocks id ++ ops) =
      versionsBehind (undefinedVars blocks) current ops := by
  rw [preamble]
  split
  · exact versionsBehind_synthetic (fun _ hv => hv) ops
  · rfl

theorem dst_not_undefined {id : BlockId} {b : SsaBlock}
    (hblock : (SsaFunction.mk blocks).block? id = some b) : ∀ op ∈ b.ops, ∀ v, op.dst = some v →
      v ∉ undefinedVars blocks := by
  intro op hop v hdst hv
  refine (mem_undefinedVars.mp hv).2 (List.mem_flatMap.mpr ⟨b, mem_blocks_of_block? hblock, ?_⟩)
  exact List.mem_append_right _ (List.mem_filterMap.mpr ⟨op, hop, hdst⟩)

/-- The synthetic loads change no version. -/
theorem SsaFunction.Renamed.injectUndefined (hids : (blocks.map SsaBlock.id).Nodup)
    (h : (SsaFunction.mk blocks).Renamed [] versions) :
    (SsaFunction.mk (injectUndefined blocks)).Renamed (undefinedVars blocks) versions := by
  have hlookup : ∀ {id b}, (SsaFunction.mk (Decompile.injectUndefined blocks)).block? id = some b →
      ∃ b₁, (SsaFunction.mk blocks).block? id = some b₁ ∧ b.phis = b₁.phis ∧
        b.successors = b₁.successors ∧ b.ops = preamble blocks id ++ b₁.ops := by
    intro id b hblock
    rw [block?_injectUndefined hids] at hblock
    obtain ⟨b₁, hb₁, rfl⟩ := Option.map_eq_some_iff.mp hblock
    exact ⟨b₁, hb₁, rfl, rfl, by rw [id_of_block? hb₁]⟩
  have hbehind : ∀ {id b₁} (ops : List SsaOp), (SsaFunction.mk blocks).block? id = some b₁ →
      (∀ op ∈ ops, op ∈ b₁.ops) → versionsBehind (undefinedVars blocks) (versions id)
        (preamble blocks id ++ ops) = versionsBehind [] (versions id) ops := by
    intro id b₁ ops hb₁ hops
    rw [versionsBehind_preamble]
    exact versionsBehind_of_disjoint fun op hop => dst_not_undefined hb₁ op (hops op hop)
  refine {
    own := h.own
    reads := ?_
    phi := ?_
    arg := ?_
    covered := ?_
    through := ?_
    undefined := ?_
    undefined_phi := ?_ }
  · intro id b i op hblock hop v hv
    obtain ⟨b₁, hb₁, -, -, hops⟩ := hlookup hblock
    rw [hops] at hop ⊢
    rcases Nat.lt_or_ge i (preamble blocks id).length with hlt | hge
    · rw [List.getElem?_append_left hlt] at hop
      obtain ⟨u, -, rfl⟩ := mem_preamble (List.mem_of_getElem? hop)
      cases hv
    · rw [List.getElem?_append_right hge] at hop
      rw [List.take_append, List.take_of_length_le hge,
        hbehind _ hb₁ fun o ho => List.mem_of_mem_take ho]
      exact h.reads id b₁ _ op hb₁ hop v hv
  · intro id b phi hblock hphi
    obtain ⟨b₁, hb₁, hphis, -⟩ := hlookup hblock
    exact h.phi id b₁ phi hb₁ (hphis ▸ hphi)
  · intro p b' id b phi v hp hsucc hblock hphi hv
    obtain ⟨b₁, hb₁, hphis, -⟩ := hlookup hblock
    obtain ⟨b₁', hb₁', -, hsuccs, hops⟩ := hlookup hp
    rw [hops, hbehind _ hb₁' fun _ ho => ho]
    exact h.arg p b₁' id b₁ phi v hb₁' (hsuccs ▸ hsucc) hb₁ (hphis ▸ hphi) hv
  · intro p b' id b phi hp hsucc hblock hphi
    obtain ⟨b₁, hb₁, hphis, -⟩ := hlookup hblock
    obtain ⟨b₁', hb₁', -, hsuccs, -⟩ := hlookup hp
    exact h.covered p b₁' id b₁ phi hb₁' (hsuccs ▸ hsucc) hb₁ (hphis ▸ hphi)
  · intro p b' id b r v hp hsucc hblock hv hno
    obtain ⟨b₁, hb₁, hphis, -⟩ := hlookup hblock
    obtain ⟨b₁', hb₁', -, hsuccs, hops⟩ := hlookup hp
    rw [hops, hbehind _ hb₁' fun _ ho => ho]
    exact h.through p b₁' id b₁ r v hb₁' (hsuccs ▸ hsucc) hb₁ hv (hphis ▸ hno)
  · intro op hop v hv hdst
    obtain ⟨b, hb, hop⟩ := SsaFunction.mem_ops.mp hop
    rw [injectUndefined_eq hids] at hb
    obtain ⟨b₁, hb₁, rfl⟩ := List.mem_map.mp hb
    rcases List.mem_append.mp hop with hop | hop
    · obtain ⟨u, -, rfl⟩ := mem_preamble hop
      rw [Option.some.inj hdst]
    · refine absurd (List.mem_flatMap.mpr ⟨b₁, hb₁, ?_⟩) (mem_undefinedVars.mp hv).2
      exact List.mem_append_right _ (List.mem_filterMap.mpr ⟨op, hop, hdst⟩)
  · intro phi hphi hv
    obtain ⟨b, hb, hphi⟩ := SsaFunction.mem_phis.mp hphi
    rw [injectUndefined_eq hids] at hb
    obtain ⟨b₁, hb₁, rfl⟩ := List.mem_map.mp hb
    refine (mem_undefinedVars.mp hv).2 (List.mem_flatMap.mpr ⟨b₁, hb₁, ?_⟩)
    exact List.mem_append_left _ (List.mem_map_of_mem hphi)

/-- The program on the registers is the same without the synthetic loads. -/
theorem registers_injectUndefined (hids : (blocks.map SsaBlock.id).Nodup) :
    (SsaFunction.mk (injectUndefined blocks)).registers (undefinedVars blocks) =
      (SsaFunction.mk blocks).registers [] := by
  rw [injectUndefined_eq hids, SsaFunction.registers, SsaFunction.registers, List.map_map]
  refine congrArg SsaFunction.mk (List.map_congr_left fun b hb => ?_)
  have hpreamble : (preamble blocks b.id).filter
      (fun op => !op.isSynthetic (undefinedVars blocks)) = [] := by
    refine List.filter_eq_nil_iff.mpr fun op hop => ?_
    obtain ⟨v, hv, rfl⟩ := mem_preamble hop
    have hsynth : (syntheticOp v).isSynthetic (undefinedVars blocks) = true :=
      SsaOp.isSynthetic_iff.mpr ⟨v, hv, rfl⟩
    simp [hsynth]
  have hops : b.ops.filter (fun op => !op.isSynthetic (undefinedVars blocks)) =
      b.ops.filter fun op => !op.isSynthetic [] := by
    refine List.filter_congr fun op hop => ?_
    have hno : ∀ {synth : List VarId}, (∀ v, op.dst = some v → v ∉ synth) →
        op.isSynthetic synth = false := by
      intro synth h
      rw [← Bool.not_eq_true, SsaOp.isSynthetic_iff]
      rintro ⟨v, hv, hdst⟩
      exact h v hdst hv
    rw [hno fun _ _ => List.not_mem_nil, hno fun v hdst hv => ?_]
    refine (mem_undefinedVars.mp hv).2 (List.mem_flatMap.mpr ⟨b, hb, ?_⟩)
    exact List.mem_append_right _ (List.mem_filterMap.mpr ⟨op, hop, hdst⟩)
  simp only [Function.comp_apply, List.filter_append, hpreamble, hops, List.nil_append]

/-- The first block starts with the synthetic loads. -/
theorem started_injectUndefined {pred entry : BlockId} (hids : (blocks.map SsaBlock.id).Nodup)
    (hfirst : blocks.head?.map SsaBlock.id = some entry)
    (hstart : ∀ r v, versions entry r = some v → v ∉ (SsaFunction.mk blocks).defs)
    (hargs : ∀ b, (SsaFunction.mk blocks).block? entry = some b → ∀ phi ∈ b.phis, phi.args = []) :
    (SsaFunction.mk (injectUndefined blocks)).Started pred entry (undefinedVars blocks) versions := by
  have hlookup : ∀ b, (SsaFunction.mk (injectUndefined blocks)).block? entry = some b →
      ∃ b₁, (SsaFunction.mk blocks).block? entry = some b₁ ∧ b.phis = b₁.phis ∧
        b.ops = (undefinedVars blocks).map syntheticOp ++ b₁.ops := by
    intro b hblock
    rw [block?_injectUndefined hids] at hblock
    obtain ⟨b₁, hb₁, rfl⟩ := Option.map_eq_some_iff.mp hblock
    refine ⟨b₁, hb₁, rfl, ?_⟩
    rw [id_of_block? hb₁, preamble, if_pos hfirst]
  constructor
  · intro b hblock
    obtain ⟨b₁, -, -, hops⟩ := hlookup b hblock
    exact ⟨b₁.ops, hops⟩
  · intro b r v _ hv
    by_cases hundef : v ∈ undefinedVars blocks
    · exact Or.inr (Or.inl hundef)
    · refine Or.inr (Or.inr fun hdef => ?_)
      rw [(injectUndefined_defs blocks).mem_iff, List.mem_append] at hdef
      exact hdef.elim hundef (hstart r v hv)
  · intro b hblock phi hphi hmem
    obtain ⟨b₁, hb₁, hphis, -⟩ := hlookup b hblock
    rw [hargs b₁ hb₁ phi (hphis ▸ hphi)] at hmem
    cases hmem

end Injected

/-! ## build_ssa -/

/-- What `build_ssa` returns, beside the program on the registers. -/
structure BuiltVersions (cfg : Cfg) (f program : SsaFunction) (synth : List VarId)
    (versions : BlockId → Nat → Option VarId) : Prop where
  ids : (f.blocks.map SsaBlock.id).Nodup
  once : f.defs.Nodup
  registers : f.registers synth = program
  renamed : f.Renamed synth versions
  started : Renaming.allPredecessors (cfgAdapter cfg) cfg.entry = [] →
    ∀ pred, f.Started pred cfg.entry synth versions

theorem listsPredecessors_of_build {t : OpcodeTables} {code bytecodes : List UInt8}
    {insts : List DecodedInst} {excHandlers : List ExcHandler} {cfg : Cfg}
    (hdecode : decodeFunction t code = .ok insts)
    (hcfg : Cfg.build insts excHandlers bytecodes = .ok cfg) : cfg.ListsPredecessors := by
  have hids := (reversePostOrder_of_build hcfg).ids
  have hmirror : ∀ a ∈ cfg.blocks.values, ∀ b ∈ cfg.blocks.values,
      a.successors.count b.id = b.predecessors.count a.id := by
    by_cases hne : insts = []
    · subst hne
      exact (wellFormed_nil hcfg).edges.mirror
    · have htiles := fun hfits => (decodeFunction_spec hdecode).tiles hfits (Nat.zero_le _)
      obtain ⟨boundaries, hbuilt⟩ := build_built hne htiles hcfg
      exact hbuilt.mirror (htiles hbuilt.fits)
  have hvalue : ∀ {id b}, cfg.blocks.get? id = some b → b ∈ cfg.blocks.values := fun hget =>
    List.mem_map_of_mem (OrdMap.get?_eq_some_iff.mp hget)
  intro p block id target hp hid hsucc
  have hcount := hmirror block (hvalue hp) target (hvalue hid)
  rw [hids p block hp, hids id target hid] at hcount
  exact List.count_pos_iff.mp (hcount ▸ List.count_pos_iff.mpr hsucc)

section BuildSsa

variable {σ : Type} {B : CommonBuilder σ} {types : DecodedInst → List OpType}
  {unwritten : σ → VarId → Prop} {cfg : Cfg} {frameSize : Nat} {t : OpcodeTables}
  {code bytecodes : List UInt8} {insts : List DecodedInst} {excHandlers : List ExcHandler}
  {built : BuiltSsa}

theorem buildSsa_builtVersions (hdecode : decodeFunction t code = .ok insts)
    (hcfg : Cfg.build insts excHandlers bytecodes = .ok cfg)
    (hlawful : B.Lawful (cfgAdapter cfg) unwritten) (hversions : B.ReadsVersions (cfgAdapter cfg))
    (hbuild : buildSsa B types cfg frameSize = .ok built) :
    ∃ program synth versions, registerProgram types cfg frameSize = .ok program ∧
      BuiltVersions cfg built.function program synth versions := by
  have horder := reversePostOrder_of_build hcfg
  obtain ⟨w, hwalk, hbuild⟩ := Loop.bind_eq_ok.mp hbuild
  obtain ⟨s, hseal, hbuild⟩ := Loop.bind_eq_ok.mp hbuild
  cases hbuild
  obtain ⟨hcalls, hphis, hdefs, -⟩ := drainPhis_spec hlawful horder.perm hwalk s
  have hnodup : cfg.blockOrder.Nodup := horder.perm.nodup_iff.mpr cfg.blocks.keys_nodup
  have hkeys : ∀ id ∈ cfg.blockOrder, id ∈ cfg.blocks.keys := fun id hid =>
    horder.perm.mem_iff.mp hid
  have hstart : WalkAt B cfg [] ⟨[], .empty, B.new⟩ ⟨[], .empty, registerBuilder.new⟩ :=
    ⟨.new, .nil, fun _ _ => rfl⟩
  obtain ⟨w', calls, hwalk', hat⟩ := foldlM_walkBlock_at hversions.newVar hkeys
    (by simpa using hnodup) hstart hwalk
  obtain ⟨versions, hentry⟩ := hversions.sealed calls w.builder s hat.history hseal
  have hids : w.blocks.map SsaBlock.id = cfg.blockOrder := by
    obtain ⟨-, blocks, hblocks, hids, -⟩ := foldlM_walkBlock_spec hkeys .new hwalk
    rw [hblocks, List.nil_append, hids]
  have hdrain : drainPhis B w.blocks s = (withPhis B s w.blocks).blocks :=
    drainPhis_eq hlawful.drained (hids.symm ▸ hnodup) s
  have hids' : ((withPhis B s w.blocks).blocks.map SsaBlock.id).Nodup := by
    rw [withPhis, List.map_map]
    exact hids.symm ▸ hnodup
  have honce : (SsaFunction.mk (drainPhis B w.blocks s)).defs.Nodup := by
    rw [hdefs.nodup_iff]
    exact List.Nodup.append (hlawful.phis_once _ _ _ hcalls hseal) (hlawful.vars_nodup hcalls)
      (hlawful.phis_new _ _ _ hcalls hseal)
  have hlists := listsPredecessors_of_build hdecode hcfg
  refine ⟨⟨w'.blocks⟩, undefinedVars (withPhis B s w.blocks).blocks, versions, ?_, ?_⟩
  · rw [registerProgram]
    exact Loop.bind_eq_ok.mpr ⟨w', hwalk', rfl⟩
  rw [hdrain] at honce ⊢
  have hrenamed := renamed_withPhis hlists hat.blocks hentry
  refine ⟨?_, ?_, ?_, hrenamed.injectUndefined hids', fun hpreds pred => ?_⟩
  · rw [injectUndefined_eq hids', List.map_map]
    exact hids'
  · rw [(injectUndefined_defs _).nodup_iff]
    refine List.Nodup.append (OrdMap.keys_nodup _) honce fun v hundef hdef => ?_
    exact (mem_undefinedVars.mp hundef).2 hdef
  · rw [registers_injectUndefined hids']
    exact registers_withPhis hat.blocks hentry
  · refine started_injectUndefined hids' ?_ (fun r v hv hdef => ?_) fun b hblock phi hphi => ?_
    · rw [withPhis, List.head?_map, Option.map_map, ← horder.first, ← hids, List.head?_map]
      rfl
    · obtain ⟨hnew, hnophi⟩ := hentry.start hpreds r v hv
      rcases defs_withPhis hat.blocks hdef with hmem | ⟨b, hmem⟩
      · exact hnew hmem
      · exact hnophi b hmem
    · obtain ⟨-, hphis', -⟩ := block?_withPhis hat.blocks hblock
      refine List.eq_nil_iff_forall_not_mem.mpr fun arg harg => ?_
      have hpred := (hentry.arg cfg.entry phi (hphis' ▸ hphi) arg.1 arg.2 harg).1
      have hnil : Renaming.allPredecessors (cfgAdapter cfg) cfg.entry = [] := hpreds
      rw [hnil] at hpred
      cases hpred

end BuildSsa

end Hermes.Decompile
