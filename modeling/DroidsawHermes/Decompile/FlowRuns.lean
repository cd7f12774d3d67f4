-- SUMMARY: The flow graph of an SSA function, runs of two functions in step, and that copy propagation keeps every run.
import DroidsawHermes.Decompile.DeadCode
import DroidsawHermes.Lib.FlowGraph

/-!
# Runs over the flow graph

The points of a function lie before and after its operations, the phis of a block read on the
edge into it. Two functions with the same points have the same runs when what they differ in
cannot be told from the values that are there. For copy propagation these are the values of
copies and of their sources.
-/

namespace Hermes.Decompile

/-! ## Points -/

inductive Point where
  | start
  /-- In a block, behind its phis and its first `i` operations. -/
  | mid (id : BlockId) (i : Nat)

/-- The block that an edge from the point comes from; a run starts from `pred`. -/
def Point.source (pred : BlockId) : Point → BlockId
  | start => pred
  | mid id _ => id

inductive FlowStep (f : SsaFunction) (entry : BlockId) : Point → Point → Prop
  | enter {b} : f.block? entry = some b → FlowStep f entry .start (.mid entry 0)
  | op {id b i} : f.block? id = some b → i < b.ops.length →
      FlowStep f entry (.mid id i) (.mid id (i + 1))
  | jump {id b succ b'} : f.block? id = some b → succ ∈ b.successors → f.block? succ = some b' →
      FlowStep f entry (.mid id b.ops.length) (.mid succ 0)

inductive FlowReads (f : SsaFunction) (pred : BlockId) : Point → Point → VarId → Prop
  | phi {p id b phi v} : f.block? id = some b → phi ∈ b.phis → (p.source pred, v) ∈ phi.args →
      FlowReads f pred p (.mid id 0) v
  | op {p id b i op v} : f.block? id = some b → b.ops[i]? = some op → v ∈ op.reads →
      FlowReads f pred p (.mid id (i + 1)) v

inductive FlowDefs (f : SsaFunction) : Point → VarId → Prop
  | phi {id b phi} : f.block? id = some b → phi ∈ b.phis → FlowDefs f (.mid id 0) phi.dst
  | op {id b i op v} : f.block? id = some b → b.ops[i]? = some op → op.dst = some v →
      FlowDefs f (.mid id (i + 1)) v

/-- The paths of a run that enters `entry` from `pred`. -/
def SsaFunction.flow (f : SsaFunction) (pred entry : BlockId) : FlowGraph Point VarId :=
  ⟨.start, FlowStep f entry, FlowReads f pred, FlowDefs f⟩

section Points

variable {f : SsaFunction} {pred entry : BlockId}

theorem mem_blocks_of_block? {id : BlockId} {b : SsaBlock} (h : f.block? id = some b) :
    b ∈ f.blocks := List.mem_reverse.mp (List.mem_of_find?_eq_some h)

theorem id_of_block? {id : BlockId} {b : SsaBlock} (h : f.block? id = some b) : b.id = id := by
  simpa using List.find?_some h

/-- Where ids are not shared, every block is found. -/
theorem block?_of_mem (hids : (f.blocks.map SsaBlock.id).Nodup) {b : SsaBlock}
    (hb : b ∈ f.blocks) : f.block? b.id = some b := by
  cases hblock : f.block? b.id with
  | none =>
    have hnone := List.find?_eq_none.mp hblock b (List.mem_reverse.mpr hb)
    simp at hnone
  | some b' =>
    rw [List.inj_on_of_nodup_map hids (mem_blocks_of_block? hblock) hb (id_of_block? hblock)]

/-- The operations of a list that defines every variable once have different destinations. -/
theorem index_unique {ops : List SsaOp} (hnodup : (ops.filterMap SsaOp.dst).Nodup) {i j : Nat}
    {op op' : SsaOp} {v : VarId} (hop : ops[i]? = some op) (hop' : ops[j]? = some op')
    (hdst : op.dst = some v) (hdst' : op'.dst = some v) : i = j := by
  induction ops generalizing i j with
  | nil => cases hop
  | cons o ops ih =>
    have htail : (ops.filterMap SsaOp.dst).Nodup :=
      List.Sublist.nodup ((List.sublist_cons_self o ops).filterMap _) hnodup
    have hhead : ∀ {k : Nat} {o' : SsaOp}, ops[k]? = some o' → o'.dst = some v →
        o.dst ≠ some v := by
      intro k o' ho' hd' hd
      rw [List.filterMap_cons_some hd] at hnodup
      exact (List.nodup_cons.mp hnodup).1
        (List.mem_filterMap.mpr ⟨o', List.mem_of_getElem? ho', hd'⟩)
    cases i with
    | zero =>
      obtain rfl := Option.some.inj hop
      cases j with
      | zero => rfl
      | succ j => exact absurd hdst (hhead hop' hdst')
    | succ i =>
      cases j with
      | zero =>
        obtain rfl := Option.some.inj hop'
        exact absurd hdst' (hhead hop hdst)
      | succ j => rw [ih htail hop hop']

theorem SsaFunction.block_unique (hnodup : f.defs.Nodup) {b b' : SsaBlock} {v : VarId}
    (hb : b ∈ f.blocks) (hb' : b' ∈ f.blocks) (hv : v ∈ b.defs) (hv' : v ∈ b'.defs) : b = b' := by
  obtain ⟨-, hdisjoint⟩ := List.nodup_flatMap.mp hnodup
  have : Std.Symm (Function.onFun List.Disjoint SsaBlock.defs) := ⟨fun _ _ h => h.symm⟩
  by_contra hne
  exact hdisjoint.forall hb hb' hne hv hv'

/-- What a phi defines no operation defines. -/
theorem SsaFunction.phi_ne_op (hnodup : f.defs.Nodup) {phi : Phi} {op : SsaOp}
    (hphi : phi ∈ f.phis) (hop : op ∈ f.ops) : op.dst ≠ some phi.dst := by
  intro hdst
  obtain ⟨b, hb, hphi⟩ := SsaFunction.mem_phis.mp hphi
  obtain ⟨b', hb', hop⟩ := SsaFunction.mem_ops.mp hop
  have hv : phi.dst ∈ b.phis.map Phi.dst := List.mem_map_of_mem hphi
  have hv' : phi.dst ∈ b'.ops.filterMap SsaOp.dst := List.mem_filterMap.mpr ⟨op, hop, hdst⟩
  obtain rfl := SsaFunction.block_unique hnodup hb hb' (List.mem_append_left _ hv)
    (List.mem_append_right _ hv')
  exact List.disjoint_of_nodup_append ((List.nodup_flatMap.mp hnodup).1 b hb) hv hv'

theorem SsaFunction.mem_ops_at {id : BlockId} {b : SsaBlock} {i : Nat} {op : SsaOp}
    (hblock : f.block? id = some b) (hop : b.ops[i]? = some op) : op ∈ f.ops :=
  SsaFunction.mem_ops.mpr ⟨b, mem_blocks_of_block? hblock, List.mem_of_getElem? hop⟩

theorem SsaFunction.mem_phis_at {id : BlockId} {b : SsaBlock} {phi : Phi}
    (hblock : f.block? id = some b) (hphi : phi ∈ b.phis) : phi ∈ f.phis :=
  SsaFunction.mem_phis.mpr ⟨b, mem_blocks_of_block? hblock, hphi⟩

/-- In a function that defines every variable once, a variable is defined at one point. -/
theorem FlowDefs.unique (hnodup : f.defs.Nodup) {p q : Point} {v : VarId} (hp : FlowDefs f p v)
    (hq : FlowDefs f q v) : p = q := by
  have hphis : ∀ {b : SsaBlock} {phi : Phi}, phi ∈ b.phis → phi.dst ∈ b.defs := fun hphi =>
    List.mem_append_left _ (List.mem_map_of_mem hphi)
  have hops : ∀ {b : SsaBlock} {i : Nat} {op : SsaOp}, b.ops[i]? = some op → op.dst = some v →
      v ∈ b.ops.filterMap SsaOp.dst := fun hop hdst =>
    List.mem_filterMap.mpr ⟨_, List.mem_of_getElem? hop, hdst⟩
  have hblocks : ∀ {id id' : BlockId} {b b' : SsaBlock}, f.block? id = some b →
      f.block? id' = some b' → v ∈ b.defs → v ∈ b'.defs → id = id' := by
    intro id id' b b' hblock hblock' hv hv'
    rw [← id_of_block? hblock, ← id_of_block? hblock', SsaFunction.block_unique hnodup
      (mem_blocks_of_block? hblock) (mem_blocks_of_block? hblock') hv hv']
  cases hp with
  | @phi id b phi hblock hphi =>
    generalize hdst : phi.dst = v at hq
    cases hq with
    | @phi id' b' phi' hblock' hphi' =>
      rw [hblocks hblock hblock' (hphis hphi) (hdst ▸ hphis hphi')]
    | @op id' b' i' op' _ hblock' hop' hdst' =>
      exact absurd (hdst ▸ hdst') (SsaFunction.phi_ne_op hnodup
        (SsaFunction.mem_phis_at hblock hphi) (SsaFunction.mem_ops_at hblock' hop'))
  | @op id b i op _ hblock hop hdst =>
    cases hq with
    | @phi id' b' phi' hblock' hphi' =>
      exact absurd hdst (SsaFunction.phi_ne_op hnodup
        (SsaFunction.mem_phis_at hblock' hphi') (SsaFunction.mem_ops_at hblock hop))
    | @op id' b' i' op' _ hblock' hop' hdst' =>
      obtain rfl := hblocks hblock hblock' (List.mem_append_right _ (hops hop hdst))
        (List.mem_append_right _ (hops hop' hdst'))
      obtain rfl := Option.some.inj (hblock.symm.trans hblock')
      have hb : (b.ops.filterMap SsaOp.dst).Nodup := (List.nodup_append.mp
        ((List.nodup_flatMap.mp hnodup).1 b (mem_blocks_of_block? hblock))).2.1
      rw [index_unique hb hop hop' hdst hdst']

theorem FlowDefs.of_op (hids : (f.blocks.map SsaBlock.id).Nodup) {op : SsaOp} (hop : op ∈ f.ops)
    {v : VarId} (hdst : op.dst = some v) : ∃ p, FlowDefs f p v := by
  obtain ⟨b, hb, hop⟩ := SsaFunction.mem_ops.mp hop
  obtain ⟨i, hi⟩ := List.mem_iff_getElem?.mp hop
  exact ⟨_, FlowDefs.op (block?_of_mem hids hb) hi hdst⟩

end Points

/-! ## Invariants -/

namespace Machine

variable {Value σ Event : Type} (m : Machine Value σ Event)

/-- What holds of the values at every point of a run, whatever happened before. -/
structure Keeps (f : SsaFunction) (pred entry : BlockId) (Inv : Point → Values Value → Prop) :
    Prop where
  enter : ∀ p id b values, f.block? id = some b → FlowStep f entry p (.mid id 0) →
    Inv p values → Inv (.mid id 0) (enterPhis b.phis (p.source pred) values)
  op : ∀ id b i op values s, f.block? id = some b → b.ops[i]? = some op →
    Inv (.mid id i) values →
    Inv (.mid id (i + 1)) (assign values op.dst (m.exec op (op.reads.map values) s).value)

/-- Two functions go through the same points and differ in nothing that the values at a point
can tell. -/
structure InStep (f f' : SsaFunction) (pred entry : BlockId) (Inv : Point → Values Value → Prop) :
    Prop where
  missing : ∀ id, f.block? id = none → f'.block? id = none
  block : ∀ id b, f.block? id = some b → ∃ b', f'.block? id = some b' ∧
    b'.successors = b.successors ∧ b'.ops.length = b.ops.length ∧
    (∀ p values, FlowStep f entry p (.mid id 0) → Inv p values →
      enterPhis b'.phis (p.source pred) values = enterPhis b.phis (p.source pred) values) ∧
    ∀ i op op', b.ops[i]? = some op → b'.ops[i]? = some op' → op'.dst = op.dst ∧
      ∀ values s, Inv (.mid id i) values →
        m.exec op' (op'.reads.map values) s = m.exec op (op.reads.map values) s

variable {m} {f f' : SsaFunction} {pred entry : BlockId} {Inv : Point → Values Value → Prop}

/-- The operations of a block, from one on. -/
theorem runOps_inStep (id : BlockId) {ops ops' : List SsaOp}
    (hlength : ops'.length = ops.length) (k : Nat)
    (halike : ∀ i op op', ops[i]? = some op → ops'[i]? = some op' → op'.dst = op.dst ∧
      ∀ values s, Inv (.mid id (k + i)) values →
        m.exec op' (op'.reads.map values) s = m.exec op (op.reads.map values) s)
    (hkeeps : ∀ i op values s, ops[i]? = some op → Inv (.mid id (k + i)) values →
      Inv (.mid id (k + i + 1)) (assign values op.dst (m.exec op (op.reads.map values) s).value))
    (values : Values Value) (s : σ) (next : Nat) (h : Inv (.mid id k) values) :
    m.runOps ops' values s next = m.runOps ops values s next ∧
      ∀ e, (m.runOps ops values s next).2 = some e → Inv (.mid id (k + ops.length)) e.1 := by
  induction ops generalizing ops' k values s next with
  | nil =>
    obtain rfl := List.eq_nil_of_length_eq_zero hlength
    refine ⟨rfl, fun e he => ?_⟩
    obtain rfl := Option.some.inj he
    exact h
  | cons op ops ih =>
    cases ops' with
    | nil => cases hlength
    | cons op' ops' =>
      obtain ⟨hdst, hexec⟩ := halike 0 op op' rfl rfl
      have hnext := hkeeps 0 op values s rfl h
      have hshift : ∀ i, k + 1 + i = k + (i + 1) := fun i => by omega
      have hrest := ih (Nat.succ.inj hlength) (k + 1)
        (fun i o o' ho ho' => hshift i ▸ halike (i + 1) o o' ho ho')
        (fun i o values s ho hi => hshift i ▸ hkeeps (i + 1) o values s ho (hshift i ▸ hi))
      simp only [runOps, hexec values s h, hdst]
      split
      · exact ⟨rfl, fun e he => by cases he⟩
      · obtain ⟨hrun, hend⟩ := hrest _ (m.exec op (op.reads.map values) s).state
          (if op.dst.isNone then (m.exec op (op.reads.map values) s).next else next) hnext
        rw [hrun]
        refine ⟨rfl, fun e he => ?_⟩
        rw [List.length_cons, ← Nat.add_assoc, Nat.add_right_comm]
        exact hend e he

/-- Functions in step have the same runs. -/
theorem InStep.run_eq_from (h : m.InStep f f' pred entry Inv) (hkeeps : m.Keeps f pred entry Inv)
    (n : Nat) (p : Point) (id : BlockId) (values : Values Value) (s : σ)
    (hstep : ∀ b, f.block? id = some b → FlowStep f entry p (.mid id 0)) (hp : Inv p values) :
    m.run f' n (p.source pred) id values s = m.run f n (p.source pred) id values s := by
  induction n generalizing p id values s with
  | zero => rfl
  | succ n ih =>
    rw [run, run]
    cases hblock : f.block? id with
    | none => rw [h.missing id hblock]
    | some b =>
      obtain ⟨b', hblock', hsuccs, hlength, hphis, hops⟩ := h.block id b hblock
      have hstep := hstep b hblock
      have hentered := hkeeps.enter p id b values hblock hstep hp
      obtain ⟨hrun, hend⟩ := runOps_inStep (m := m) id hlength 0
        (fun i op op' hop hop' => by simpa using hops i op op' hop hop')
        (fun i op values s hop hi => by
          simpa using hkeeps.op id b i op values s hblock hop (by simpa using hi))
        (enterPhis b.phis (p.source pred) values) s 0 hentered
      rw [hblock']
      simp only [hphis p values hstep hp, hrun, hsuccs]
      congr 1
      generalize (m.runOps b.ops (enterPhis b.phis (p.source pred) values) s 0).2 = result at hend
      cases result with
      | none => rfl
      | some e =>
        obtain ⟨values, s, next⟩ := e
        dsimp only
        cases hsucc : b.successors[next]? with
        | none => rfl
        | some succ =>
          have hmid : Inv (.mid id (0 + b.ops.length)) values := hend _ rfl
          rw [Nat.zero_add] at hmid
          exact ih (.mid id b.ops.length) succ values s
            (fun b' hb' => .jump hblock (List.mem_of_getElem? hsucc) hb') hmid

theorem InStep.run_eq (h : m.InStep f f' pred entry Inv) (hkeeps : m.Keeps f pred entry Inv)
    {values : Values Value} (hstart : Inv .start values) (n : Nat) (s : σ) :
    m.run f' n pred entry values s = m.run f n pred entry values s :=
  h.run_eq_from hkeeps n .start entry values s (fun _ hb => .enter hb) hstart

/-! ## What a step leaves alone -/

theorem enterPhis_frame {id : BlockId} {b : SsaBlock} (hblock : f.block? id = some b)
    (source : BlockId) (values : Values Value) :
    (f.flow pred entry).Frame (.mid id 0) values (enterPhis b.phis source values) := by
  intro v hv
  have hnone : b.phis.find? (fun phi => phi.dst = v) = none := by
    refine List.find?_eq_none.mpr fun phi hphi hdst => hv ?_
    have hdst : phi.dst = v := by simpa using hdst
    exact hdst ▸ FlowDefs.phi hblock hphi
  simp [enterPhis, hnone]

theorem assign_frame {id : BlockId} {b : SsaBlock} {i : Nat} {op : SsaOp}
    (hblock : f.block? id = some b) (hop : b.ops[i]? = some op) (values : Values Value)
    (value : Value) :
    (f.flow pred entry).Frame (.mid id (i + 1)) values (assign values op.dst value) := by
  intro v hv
  cases hdst : op.dst with
  | none => rfl
  | some d =>
    have hne : v ≠ d := by
      rintro rfl
      exact hv (FlowDefs.op hblock hop hdst)
    simp [assign, hne]

end Machine

/-! ## Copy propagation -/

/-- The operation without the names of its variables. -/
def SsaOp.unnamed (op : SsaOp) : SsaOp :=
  { op with
    dst := op.dst.map fun _ => ⟨0, 0⟩
    operands := op.operands.map (SsaOperand.mapVar fun _ => ⟨0, 0⟩) }

/-- Variables have no meaning beyond their values. -/
def Machine.Nameless {Value σ Event : Type} (m : Machine Value σ Event) : Prop :=
  ∀ op op', op'.unnamed = op.unnamed → m.exec op' = m.exec op

/-- A move gives the value that it reads. -/
structure MovesValues {Value σ Event : Type} (m : Machine Value σ Event) : Prop where
  nameless : m.Nameless
  moves : ∀ op u, op.copySrc = some u →
    ∀ (values : VarId → Value) s, (m.exec op (op.reads.map values) s).value = values u

/-- Every read comes behind the definition of its variable, on every path, or the variable has
none. -/
def SsaFunction.Strict (f : SsaFunction) (pred entry : BlockId) : Prop :=
  (f.flow pred entry).Strict

section Copies

variable {f : SsaFunction} {pred entry : BlockId}

theorem SsaFunction.strict_of_reads
    (h : ∀ p q v, FlowStep f entry p q → FlowReads f pred p q v →
      (f.flow pred entry).Undefined v p → (f.flow pred entry).Never v) : f.Strict pred entry where
  start _ hdef := by cases hdef
  reads := h

/-- Every read is of a variable that an operation before it in the block defines. -/
def SsaFunction.ReadsLocally (f : SsaFunction) : Prop :=
  ∀ b ∈ f.blocks, b.phis = [] ∧ ∀ i < b.ops.length, ∀ op ∈ b.ops[i]?, ∀ v ∈ op.reads,
    v ∈ (b.ops.take i).filterMap SsaOp.dst

instance (f : SsaFunction) : Decidable f.ReadsLocally :=
  inferInstanceAs (Decidable (∀ b ∈ f.blocks, _ ∧ _))

/-- A path that does not define a variable has passed none of its definitions in the block. -/
theorem not_mem_dsts_of_undefined {v : VarId} {p : Point}
    (h : (f.flow pred entry).Undefined v p) : ∀ id i b, p = .mid id i → f.block? id = some b →
      v ∉ (b.ops.take i).filterMap SsaOp.dst := by
  induction h with
  | start _ => exact fun id i b heq => by cases heq
  | @step p q _ hstep hno ih =>
    intro id i b heq hblock hmem
    subst heq
    cases hstep with
    | enter _ => cases hmem
    | @op _ b' i hblock' hlt =>
      obtain rfl := Option.some.inj (hblock.symm.trans hblock')
      obtain ⟨op, hop⟩ : ∃ op, b.ops[i]? = some op := ⟨_, List.getElem?_eq_getElem hlt⟩
      rw [List.take_add_one, hop, Option.toList_some, List.filterMap_append, List.mem_append] at hmem
      refine hmem.elim (ih id i b rfl hblock) fun hlast => ?_
      obtain ⟨op', hop', hdst⟩ := List.mem_filterMap.mp hlast
      obtain rfl := List.mem_singleton.mp hop'
      exact hno (FlowDefs.op hblock hop hdst)
    | jump _ _ _ => cases hmem

theorem SsaFunction.ReadsLocally.strict (h : f.ReadsLocally) (pred entry : BlockId) :
    f.Strict pred entry := by
  refine SsaFunction.strict_of_reads fun p q v hstep hread hundef => ?_
  cases hread with
  | phi hblock hphi _ =>
    rw [(h _ (mem_blocks_of_block? hblock)).1] at hphi
    cases hphi
  | @op id b i op _ hblock hop hmem =>
    cases hstep with
    | op _ hlt =>
      have hbefore := (h b (mem_blocks_of_block? hblock)).2 i
        (List.getElem?_eq_some_iff.mp hop).1 op hop v hmem
      exact absurd hbefore (not_mem_dsts_of_undefined hundef id i b rfl hblock)

theorem SsaOp.mem_reads_of_copySrc {op : SsaOp} {u : VarId} (h : op.copySrc = some u) :
    u ∈ op.reads := by
  unfold copySrc at h
  split at h
  · obtain ⟨o, ho, hvar⟩ := Option.bind_eq_some_iff.mp h
    exact List.mem_filterMap.mpr ⟨o, List.mem_of_getElem? ho, hvar⟩
  · cases h

theorem SsaFunction.copies_flow (hids : (f.blocks.map SsaBlock.id).Nodup)
    (hnodup : f.defs.Nodup) : (f.flow pred entry).Copies f.IsCopy where
  unique _ _ _ hp hq := FlowDefs.unique hnodup hp hq
  defined := by
    rintro v u ⟨op, hop, hdst, -⟩ hnever
    obtain ⟨p, hp⟩ := FlowDefs.of_op hids hop hdst
    exact hnever p hp
  reads := by
    rintro v u p q ⟨op, hop, hdst, hsrc⟩ - hdef
    cases hdef with
    | @phi id b phi hblock hphi =>
      exact absurd hdst (SsaFunction.phi_ne_op hnodup (SsaFunction.mem_phis_at hblock hphi) hop)
    | @op id b i op' _ hblock hop' hdst' =>
      obtain rfl := SsaFunction.op_unique hnodup hop (SsaFunction.mem_ops_at hblock hop') hdst hdst'
      exact FlowReads.op hblock hop' (SsaOp.mem_reads_of_copySrc hsrc)

variable {Value σ Event : Type} {m : Machine Value σ Event}

/-- What copy propagation relies on at a point that a run comes to. -/
def CopiesHold (f : SsaFunction) (pred entry : BlockId) (p : Point) (values : VarId → Value) :
    Prop :=
  (f.flow pred entry).Reachable p ∧ (f.flow pred entry).CopiesAgree f.IsCopy p values

theorem MovesValues.keeps_copies (hm : MovesValues m) (hids : (f.blocks.map SsaBlock.id).Nodup)
    (hnodup : f.defs.Nodup) (hstrict : f.Strict pred entry) :
    m.Keeps f pred entry (CopiesHold f pred entry) where
  enter := by
    rintro p id b values hblock hstep ⟨hreach, hagree⟩
    refine ⟨hreach.tail hstep, hstrict.copiesAgree_step (SsaFunction.copies_flow hids hnodup) hagree
      hreach hstep (Machine.enterPhis_frame hblock _ values) ?_⟩
    -- A phi is no copy.
    rintro v u ⟨op, hop, hdst, -⟩ hdef
    cases hdef with
    | @phi id b phi hblock hphi =>
      exact absurd hdst (SsaFunction.phi_ne_op hnodup (SsaFunction.mem_phis_at hblock hphi) hop)
  op := by
    rintro id b i op values s hblock hop ⟨hreach, hagree⟩
    have hlt : i < b.ops.length := (List.getElem?_eq_some_iff.mp hop).1
    have hstep : FlowStep f entry (.mid id i) (.mid id (i + 1)) := .op hblock hlt
    refine ⟨hreach.tail hstep, hstrict.copiesAgree_step (SsaFunction.copies_flow hids hnodup) hagree
      hreach hstep (Machine.assign_frame hblock hop values _) ?_⟩
    rintro v u ⟨op', hop', hdst', hsrc⟩ hdef
    cases hdef with
    | @op _ b' _ op'' _ hblock' hop'' hdst'' =>
      obtain rfl := Option.some.inj (hblock.symm.trans hblock')
      obtain rfl := Option.some.inj (hop.symm.trans hop'')
      obtain rfl := SsaFunction.op_unique hnodup (SsaFunction.mem_ops_at hblock hop) hop' hdst'' hdst'
      rw [hdst'', Machine.assign, Function.update_self, hm.moves op u hsrc]

/-- A variable and the root of its copies have the same value where it is read. -/
theorem CopiesHold.copyRoot (hids : (f.blocks.map SsaBlock.id).Nodup) (hnodup : f.defs.Nodup)
    (hstrict : f.Strict pred entry) {p q : Point} {values : VarId → Value}
    (h : CopiesHold f pred entry p values) {v : VarId}
    (hstep : FlowStep f entry p q) (hread : FlowReads f pred p q v) :
    values (f.copyRoot v) = values v :=
  hstrict.eq_of_chain (SsaFunction.copies_flow hids hnodup) h.2 (f.copyOf_copyRoot v)
    (hstrict.reads p q v hstep hread)

theorem SsaOp.unnamed_mapOperands (op : SsaOp) (τ : VarId → VarId) :
    (op.mapOperands (SsaOperand.mapVar τ)).unnamed = op.unnamed := by
  have hmap : (SsaOperand.mapVar fun _ => ⟨0, 0⟩) ∘ SsaOperand.mapVar τ =
      SsaOperand.mapVar fun _ => ⟨0, 0⟩ := by
    funext o
    cases o <;> rfl
  simp only [unnamed, mapOperands, List.map_map, hmap]

theorem SsaOp.reads_mapVar (op : SsaOp) (τ : VarId → VarId) :
    (op.mapOperands (SsaOperand.mapVar τ)).reads = op.reads.map τ := by
  have hvar : SsaOperand.var? ∘ SsaOperand.mapVar τ = fun o => o.var?.map τ := by
    funext o
    cases o <;> rfl
  simp only [reads, mapOperands, List.filterMap_map, List.map_filterMap, hvar]

/-- Phi arguments may be renamed to variables of the same value. -/
theorem enterPhis_mapArgs {phis : List Phi} {source : BlockId} {τ : VarId → VarId}
    {values : VarId → Value}
    (h : ∀ phi ∈ phis, ∀ v, (source, v) ∈ phi.args → values (τ v) = values v) :
    enterPhis (phis.map (Phi.mapArgs τ)) source values = enterPhis phis source values := by
  funext v
  have hfind : (phis.map (Phi.mapArgs τ)).find? (fun phi => phi.dst = v) =
      (phis.find? fun phi => phi.dst = v).map (Phi.mapArgs τ) := List.find?_map
  have harg : ∀ phi : Phi, (phi.mapArgs τ).args.find? (fun arg => arg.1 = source) =
      (phi.args.find? fun arg => arg.1 = source).map fun arg => (arg.1, τ arg.2) :=
    fun phi => List.find?_map
  unfold enterPhis
  rw [hfind]
  cases hphi : phis.find? fun phi => phi.dst = v with
  | none => rfl
  | some phi =>
    simp only [Option.map_some, Option.bind_some, harg]
    cases hsource : phi.args.find? fun arg => arg.1 = source with
    | none => rfl
    | some arg =>
      have hmem := List.mem_of_find?_eq_some hsource
      have heq : arg.1 = source := by simpa using List.find?_some hsource
      exact h phi (List.mem_of_find?_eq_some hphi) arg.2 (heq ▸ hmem)

theorem block?_copyPropagation (f : SsaFunction) (id : BlockId) :
    (copyPropagation f).block? id = (f.block? id).map fun b =>
      { b with
        phis := b.phis.map (Phi.mapArgs f.copyRoot)
        ops := b.ops.map (SsaOp.mapOperands (SsaOperand.mapVar f.copyRoot)) } := by
  rw [copyPropagation, SsaFunction.block?, SsaFunction.block?, ← List.map_reverse,
    List.find?_map]
  rfl

theorem copyPropagation_inStep (hm : MovesValues m) (hids : (f.blocks.map SsaBlock.id).Nodup)
    (hnodup : f.defs.Nodup) (hstrict : f.Strict pred entry) :
    m.InStep f (copyPropagation f) pred entry (CopiesHold f pred entry) := by
  refine ⟨fun id hnone => by rw [block?_copyPropagation, hnone]; rfl, fun id b hblock => ?_⟩
  refine ⟨{ b with
    phis := b.phis.map (Phi.mapArgs f.copyRoot)
    ops := b.ops.map (SsaOp.mapOperands (SsaOperand.mapVar f.copyRoot)) },
    by rw [block?_copyPropagation, hblock]; rfl, rfl, List.length_map _, ?_, ?_⟩
  · intro p values hstep hinv
    refine enterPhis_mapArgs fun phi hphi v hv => ?_
    exact hinv.copyRoot hids hnodup hstrict hstep (.phi hblock hphi hv)
  · intro i op op' hop hop'
    rw [List.getElem?_map, hop, Option.map_some, Option.some.injEq] at hop'
    subst hop'
    refine ⟨rfl, fun values s hinv => ?_⟩
    have hlt : i < b.ops.length := (List.getElem?_eq_some_iff.mp hop).1
    rw [hm.nameless op _ (op.unnamed_mapOperands _), op.reads_mapVar, List.map_map]
    congr 1
    refine List.map_congr_left fun v hv => ?_
    exact hinv.copyRoot hids hnodup hstrict (.op hblock hlt) (.op hblock hop hv)

/-- Copy propagation keeps the events of every run. -/
theorem run_copyPropagation (hm : MovesValues m) (hids : (f.blocks.map SsaBlock.id).Nodup)
    (hnodup : f.defs.Nodup) (hstrict : f.Strict pred entry) (n : Nat) (values : VarId → Value)
    (s : σ) : m.run (copyPropagation f) n pred entry values s = m.run f n pred entry values s :=
  (copyPropagation_inStep hm hids hnodup hstrict).run_eq (hm.keeps_copies hids hnodup hstrict)
    ⟨Relation.ReflTransGen.refl, hstrict.copiesAgree_start values⟩ n s

end Copies

/-! ### A machine that shows what is read -/

/-- How many variables stand before operand `i`. -/
def SsaOp.readIndex (op : SsaOp) (i : Nat) : Nat :=
  ((op.operands.take i).filterMap SsaOperand.var?).length

theorem SsaOp.readIndex_unnamed (op : SsaOp) (i : Nat) : op.unnamed.readIndex i = op.readIndex i := by
  have hvar : SsaOperand.var? ∘ SsaOperand.mapVar (fun _ => ⟨0, 0⟩) =
      fun o => o.var?.map fun _ => ⟨0, 0⟩ := by
    funext o
    cases o <;> rfl
  simp only [readIndex, unnamed, ← List.map_take, List.filterMap_map, hvar,
    ← List.map_filterMap, List.length_map]

theorem SsaOp.getElem?_reads {op : SsaOp} {i : Nat} {v : VarId}
    (h : op.operands[i]? = some (.var v)) : op.reads[op.readIndex i]? = some v := by
  obtain ⟨hlt, -⟩ := List.getElem?_eq_some_iff.mp h
  have hsplit : op.operands = op.operands.take i ++ (.var v :: op.operands.drop (i + 1)) := by
    rw [← (List.getElem?_eq_some_iff.mp h).2, List.getElem_cons_drop, List.take_append_drop]
  have hreads : op.reads = (op.operands.take i).filterMap SsaOperand.var? ++
      v :: (op.operands.drop (i + 1)).filterMap SsaOperand.var? := by
    conv_lhs => rw [reads, hsplit]
    rw [List.filterMap_append]
    rfl
  rw [hreads, readIndex, List.getElem?_append_right (Nat.le_refl _), Nat.sub_self,
    List.getElem?_cons_zero]

/-- Every operation gives its second operand, and one without a destination shows what it
reads. -/
def showingMachine : Machine Nat Unit (List Nat) where
  exec op values s :=
    ⟨(values[op.unnamed.readIndex 1]?).getD 0, s, if op.unnamed.dst.isNone then [values] else [],
      false, 0⟩
  same s s' := s = s'
  equiv := eq_equivalence
  congr := by
    rintro s _ rfl op values
    exact ⟨rfl, rfl, rfl, rfl, rfl⟩

theorem showingMachine_movesValues : MovesValues showingMachine where
  nameless op op' h := by
    funext values s
    simp only [showingMachine, h]
  moves op u hsrc values s := by
    have hoperand : op.operands[1]? = some (.var u) := by
      unfold SsaOp.copySrc at hsrc
      split at hsrc
      · obtain ⟨o, ho, hvar⟩ := Option.bind_eq_some_iff.mp hsrc
        cases o <;> cases hvar
        exact ho
      · cases hsrc
    simp only [showingMachine, SsaOp.readIndex_unnamed, List.getElem?_map,
      SsaOp.getElem?_reads hoperand, Option.map_some, Option.getD_some]

/-- `Mov r1, r0` and `Ret r1`, behind a load. -/
def movedValue : SsaFunction :=
  ⟨[{
    id := 0
    phis := []
    ops := [⟨"LoadParam", some ⟨0, 1⟩, [.dstPlaceholder, .const 1], ⟨0, 3, "LoadParam", []⟩⟩,
      ⟨"Mov", some ⟨1, 1⟩, [.dstPlaceholder, .var ⟨0, 1⟩], ⟨3, 3, "Mov", []⟩⟩,
      ⟨"Ret", none, [.var ⟨1, 1⟩], ⟨6, 2, "Ret", []⟩⟩]
    successors := []
    predecessors := [] }]⟩

theorem run_copyPropagation_movedValue :
    (copyPropagation movedValue).copyRoot ⟨1, 1⟩ = ⟨0, 1⟩ ∧
      showingMachine.run (copyPropagation movedValue) 1 0 0 (fun _ => 7) () =
        showingMachine.run movedValue 1 0 0 (fun _ => 7) () :=
  ⟨by decide, run_copyPropagation showingMachine_movesValues (by decide) (by decide)
    (SsaFunction.ReadsLocally.strict (by decide) 0 0) 1 (fun _ => 7) ()⟩

end Hermes.Decompile
