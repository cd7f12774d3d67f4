-- SUMMARY: Runs whose values are stored under the names of variables, and when they are those of the function.
import DroidsawHermes.Decompile.CoalescedNames
import DroidsawHermes.Decompile.CodeRuns
import DroidsawHermes.Lib.SharedNames

/-!
# Runs on names

The decompiled code keeps its values under the names of variables, and leaves out the copy of a
phi where both sides have one name. It runs like the function where no variable is read behind
another one of its name. What `build_ssa` returns is such a function, for the coalesced names.
-/

namespace Hermes.Decompile

/-- The values of names. -/
abbrev Store (Value : Type) := String → Value

namespace Machine

variable {Value σ Event : Type} (m : Machine Value σ Event) (name : VarId → String)

def assignName (store : Store Value) (dst : Option VarId) (value : Value) : Store Value :=
  match dst with
  | some v => Function.update store (name v) value
  | none => store

def runNamedOps : List SsaOp → Store Value → σ → Nat → List Event × Option (Store Value × σ × Nat)
  | [], store, s, next => ([], some (store, s, next))
  | op :: rest, store, s, next =>
    let effect := m.exec op (op.reads.map fun v => store (name v)) s
    if effect.stops then (effect.events, none)
    else
      let result := runNamedOps rest (assignName name store op.dst effect.value) effect.state
        (if op.dst.isNone then effect.next else next)
      (effect.events ++ result.1, result.2)

/-- The copies of the phis, all at once. -/
def enterNamed (phis : List Phi) (pred : BlockId) (store : Store Value) : Store Value := fun text =>
  match (phis.find? fun phi => name phi.dst = text).bind fun phi =>
      phi.args.find? fun arg => arg.1 = pred with
  | some arg => store (name arg.2)
  | none => store text

/-- The events of a run through at most `n` blocks that keeps its values under the names. -/
def runNamed (f : SsaFunction) : Nat → BlockId → BlockId → Store Value → σ → List Event
  | 0, _, _, _, _ => []
  | n + 1, pred, id, store, s =>
    match f.block? id with
    | none => []
    | some b =>
      let result := m.runNamedOps name b.ops (enterNamed name b.phis pred store) s 0
      result.1 ++ match result.2 with
        | none => []
        | some (store, s, next) =>
          match b.successors[next]? with
          | none => []
          | some succ => runNamed f n id succ store s

/-- Every step keeps `Inv`, and with it the names have the values that are read. -/
structure Represents (f : SsaFunction) (pred entry : BlockId)
    (Inv : Point → Values Value → Store Value → Prop) : Prop where
  enter : ∀ p id b values store, f.block? id = some b → FlowStep f entry p (.mid id 0) →
    Inv p values store →
    Inv (.mid id 0) (enterPhis b.phis (p.source pred) values)
      (enterNamed name b.phis (p.source pred) store)
  reads : ∀ id b i op values store, f.block? id = some b → b.ops[i]? = some op →
    Inv (.mid id i) values store → ∀ v ∈ op.reads, store (name v) = values v
  op : ∀ id b i op values store s, f.block? id = some b → b.ops[i]? = some op →
    Inv (.mid id i) values store →
    Inv (.mid id (i + 1)) (assign values op.dst (m.exec op (op.reads.map values) s).value)
      (assignName name store op.dst (m.exec op (op.reads.map values) s).value)

variable {m name} {f : SsaFunction} {pred entry : BlockId}
  {Inv : Point → Values Value → Store Value → Prop}

/-- The ends of a block on values and on names. -/
def EndsAlike (Inv : Values Value → Store Value → Prop) :
    Option (Values Value × σ × Nat) → Option (Store Value × σ × Nat) → Prop
  | none, none => True
  | some (values, s, next), some (store, s', next') => Inv values store ∧ s' = s ∧ next' = next
  | _, _ => False

/-- The operations of a block, from one on. -/
theorem Represents.runNamedOps (h : m.Represents name f pred entry Inv) {id : BlockId}
    {b : SsaBlock} (hblock : f.block? id = some b) {ops : List SsaOp} {k : Nat}
    (hk : k ≤ b.ops.length) (hops : b.ops.drop k = ops) {values : Values Value}
    {store : Store Value} (s : σ) (next : Nat)
    (hinv : Inv (.mid id k) values store) :
    (m.runNamedOps name ops store s next).1 = (m.runOps ops values s next).1 ∧
      EndsAlike (Inv (.mid id b.ops.length)) (m.runOps ops values s next).2
        (m.runNamedOps name ops store s next).2 := by
  induction ops generalizing k values store s next with
  | nil =>
    obtain rfl : k = b.ops.length := Nat.le_antisymm hk (List.drop_eq_nil_iff.mp hops)
    exact ⟨rfl, hinv, rfl, rfl⟩
  | cons op ops ih =>
    have hop : b.ops[k]? = some op := by
      rw [← List.head?_drop, hops, List.head?_cons]
    have hlt : k < b.ops.length := (List.getElem?_eq_some_iff.mp hop).1
    have hrest : b.ops.drop (k + 1) = ops := by
      rw [← List.tail_drop, hops, List.tail_cons]
    have hreads : op.reads.map (fun v => store (name v)) = op.reads.map values :=
      List.map_congr_left (h.reads id b k op values store hblock hop hinv)
    have hnext := h.op id b k op values store s hblock hop hinv
    rw [Machine.runNamedOps, runOps, hreads]
    dsimp only
    split
    · exact ⟨rfl, trivial⟩
    · obtain ⟨hevents, hend⟩ := ih hlt hrest (m.exec op (op.reads.map values) s).state
        (if op.dst.isNone then (m.exec op (op.reads.map values) s).next else next) hnext
      exact ⟨by rw [hevents], hend⟩

/-- Names that have what is read have the same runs. -/
theorem Represents.run_eq_from (h : m.Represents name f pred entry Inv) (n : Nat) (p : Point)
    (id : BlockId) (values : Values Value) (store : Store Value) (s : σ)
    (hstep : ∀ b, f.block? id = some b → FlowStep f entry p (.mid id 0)) (hp : Inv p values store) :
    m.runNamed name f n (p.source pred) id store s = m.run f n (p.source pred) id values s := by
  induction n generalizing p id values store s with
  | zero => rfl
  | succ n ih =>
    rw [runNamed, run]
    cases hblock : f.block? id with
    | none => rfl
    | some b =>
      obtain ⟨hevents, hend⟩ := h.runNamedOps hblock (Nat.zero_le _) List.drop_zero s 0
        (h.enter p id b values store hblock (hstep b hblock) hp)
      dsimp only
      rw [hevents]
      congr 1
      generalize (m.runOps b.ops (enterPhis b.phis (p.source pred) values) s 0).2 = result at hend
      generalize (m.runNamedOps name b.ops (enterNamed name b.phis (p.source pred) store) s 0).2 =
        result' at hend
      cases result with
      | none =>
        cases result' with
        | none => rfl
        | some e' => exact False.elim hend
      | some e =>
        obtain ⟨values, s, next⟩ := e
        cases result' with
        | none => exact False.elim hend
        | some e' =>
          obtain ⟨store, s', next'⟩ := e'
          obtain ⟨hinv, rfl, rfl⟩ := hend
          dsimp only
          cases hsucc : b.successors[next']? with
          | none => rfl
          | some succ =>
            exact ih (.mid id b.ops.length) succ values store s'
              (fun b' hb' => .jump hblock (List.mem_of_getElem? hsucc) hb') hinv

theorem Represents.run_eq (h : m.Represents name f pred entry Inv) {values : Values Value}
    {store : Store Value} (hstart : Inv .start values store) (n : Nat) (s : σ) :
    m.runNamed name f n pred entry store s = m.run f n pred entry values s :=
  h.run_eq_from n .start entry values store s (fun _ hb => .enter hb) hstart

/-- A name that is copied to for one variable only gets the value of the variable. -/
theorem enterNamed_eq {phis : List Phi} {pred : BlockId} {values : Values Value}
    {store : Store Value} {v : VarId}
    (halone : ∀ phi ∈ phis, name phi.dst = name v → phi.dst = v)
    (hargs : ∀ phi ∈ phis, phi.dst = v → ∀ u, (pred, u) ∈ phi.args → store (name u) = values u)
    (helse : store (name v) = values v ∨ (∃ phi ∈ phis, phi.dst = v) ∧
      ∀ phi ∈ phis, phi.dst = v → pred ∈ phi.args.map Prod.fst) :
    enterNamed name phis pred store (name v) = enterPhis phis pred values v := by
  have hfind : phis.find? (fun phi => name phi.dst = name v) =
      phis.find? fun phi => phi.dst = v :=
    List.find?_congr fun phi hphi => decide_eq_decide.mpr ⟨halone phi hphi, congrArg name⟩
  unfold enterNamed enterPhis
  rw [hfind]
  cases hphi : phis.find? fun phi => phi.dst = v with
  | none =>
    rcases helse with h | ⟨⟨phi, hmem, hdst⟩, -⟩
    · exact h
    · exact absurd (decide_eq_true hdst) (List.find?_eq_none.mp hphi phi hmem)
  | some phi =>
    have hmem := List.mem_of_find?_eq_some hphi
    have hdst : phi.dst = v := by simpa using List.find?_some hphi
    rw [Option.bind_some]
    cases harg : phi.args.find? fun arg => arg.1 = pred with
    | none =>
      rcases helse with h | ⟨-, hcovered⟩
      · exact h
      · obtain ⟨arg, harg', heq⟩ := List.mem_map.mp (hcovered phi hmem hdst)
        exact absurd (decide_eq_true heq) (List.find?_eq_none.mp harg arg harg')
    | some arg =>
      have hpred : arg.1 = pred := by simpa using List.find?_some harg
      exact hargs phi hmem hdst arg.2 (hpred ▸ List.mem_of_find?_eq_some harg)

end Machine

/-! ## Functions whose names do not clash -/

/-- A phi has an argument for every edge into its block. -/
def SsaFunction.PhisCovered (f : SsaFunction) : Prop :=
  ∀ p b' id b phi, f.block? p = some b' → id ∈ b'.successors → f.block? id = some b →
    phi ∈ b.phis → p ∈ phi.args.map Prod.fst

/-- No variable is read behind another one of its name. -/
def SsaFunction.NamesApart (f : SsaFunction) (pred entry : BlockId) (name : VarId → String) :
    Prop :=
  ∀ p q v, FlowStep f entry p q → FlowReads f pred p q v →
    ¬ (f.flow pred entry).Clobbered name v p

section Apart

variable {f : SsaFunction} {pred entry : BlockId} {name : VarId → String}
  {Value σ Event : Type} {m : Machine Value σ Event}

/-- A name has the value of its variable, or is not read for it. -/
def NamesHoldAt (f : SsaFunction) (pred entry : BlockId) (name : VarId → String) (p : Point)
    (values : VarId → Value) (store : String → Value) : Prop :=
  (f.flow pred entry).Reachable p ∧ (f.flow pred entry).NamesHold name p values store ∧
    (p = .start → ∀ v, store (name v) = values v)

theorem stored_enter {id : BlockId} {b : SsaBlock} (hblock : f.block? id = some b)
    {source : BlockId} {values : VarId → Value} {store : String → Value}
    (hargs : ∀ phi ∈ b.phis, ∀ u, (source, u) ∈ phi.args → store (name u) = values u)
    (hcovered : (∀ v, store (name v) = values v) ∨
      ∀ phi ∈ b.phis, source ∈ phi.args.map Prod.fst) :
    (f.flow pred entry).Stored name (.mid id 0) (enterPhis b.phis source values) store
      (Machine.enterNamed name b.phis source store) := by
  constructor
  · intro v hv
    have hnone : b.phis.find? (fun phi => name phi.dst = name v) = none :=
      List.find?_eq_none.mpr fun phi hphi heq =>
        hv phi.dst (FlowDefs.phi hblock hphi) (of_decide_eq_true heq)
    simp [Machine.enterNamed, hnone]
  · intro v hv halone
    obtain ⟨phi, hphi, rfl⟩ : ∃ phi ∈ b.phis, phi.dst = v := by
      cases hv with
      | @phi _ b' phi hblock' hphi =>
        obtain rfl := Option.some.inj (hblock.symm.trans hblock')
        exact ⟨phi, hphi, rfl⟩
    refine Machine.enterNamed_eq
      (fun phi' hphi' hname => halone phi'.dst (FlowDefs.phi hblock hphi') hname)
      (fun phi' hphi' _ u hu => hargs phi' hphi' u hu) ?_
    exact hcovered.imp (fun h => h _) fun h => ⟨⟨phi, hphi, rfl⟩, fun phi' hphi' _ => h phi' hphi'⟩

theorem stored_assign {id : BlockId} {b : SsaBlock} {i : Nat} {op : SsaOp}
    (hblock : f.block? id = some b) (hop : b.ops[i]? = some op) (values : VarId → Value)
    (store : String → Value) (value : Value) :
    (f.flow pred entry).Stored name (.mid id (i + 1)) (Machine.assign values op.dst value) store
      (Machine.assignName name store op.dst value) := by
  have hdefs : ∀ v, FlowDefs f (.mid id (i + 1)) v → op.dst = some v := by
    intro v hv
    cases hv with
    | @op _ b' _ op' _ hblock' hop' hdst' =>
      obtain rfl := Option.some.inj (hblock.symm.trans hblock')
      obtain rfl := Option.some.inj (hop.symm.trans hop')
      exact hdst'
  constructor
  · intro v hv
    cases hdst : op.dst with
    | none => rfl
    | some d =>
      exact Function.update_of_ne (fun heq => hv d (FlowDefs.op hblock hop hdst) heq.symm) _ _
  · intro v hv _
    rw [hdefs v hv, Machine.assignName, Machine.assign, Function.update_self, Function.update_self]

theorem SsaFunction.NamesApart.represents (h : f.NamesApart pred entry name)
    (hcovered : f.PhisCovered) :
    m.Represents name f pred entry (NamesHoldAt f pred entry name) where
  enter := by
    rintro p id b values store hblock hstep ⟨hreach, hhold, hstart⟩
    have hread : ∀ v, FlowReads f pred p (.mid id 0) v → store (name v) = values v := fun v hv =>
      (hhold v).resolve_right (h p _ v hstep hv)
    refine ⟨hreach.tail hstep, FlowGraph.namesHold_step hhold hreach hstep
      (Machine.enterPhis_frame hblock _ values) (stored_enter hblock ?_ ?_),
      fun heq => by cases heq⟩
    · exact fun phi hphi u hu => hread u (.phi hblock hphi hu)
    · cases hstep with
      | enter _ => exact Or.inl (hstart rfl)
      | jump hfrom hsucc _ =>
        exact Or.inr fun phi hphi => hcovered _ _ _ _ phi hfrom hsucc hblock hphi
  reads := by
    rintro id b i op values store hblock hop ⟨-, hhold, -⟩ v hv
    have hlt : i < b.ops.length := (List.getElem?_eq_some_iff.mp hop).1
    exact (hhold v).resolve_right (h _ _ v (.op hblock hlt) (.op hblock hop hv))
  op := by
    rintro id b i op values store s hblock hop ⟨hreach, hhold, -⟩
    have hlt : i < b.ops.length := (List.getElem?_eq_some_iff.mp hop).1
    have hstep : FlowStep f entry (.mid id i) (.mid id (i + 1)) := .op hblock hlt
    exact ⟨hreach.tail hstep, FlowGraph.namesHold_step hhold hreach hstep
      (Machine.assign_frame hblock hop values _) (stored_assign hblock hop values store _),
      fun heq => by cases heq⟩

/-- Names keep every run where none is read for a variable behind another one of the name. -/
theorem SsaFunction.NamesApart.runNamed_eq (hapart : f.NamesApart pred entry name)
    (hcovered : f.PhisCovered) (n : Nat) (store : String → Value) (s : σ) :
    m.runNamed name f n pred entry store s =
      m.run f n pred entry (fun v => store (name v)) s :=
  (hapart.represents hcovered).run_eq ⟨.refl, fun _ => Or.inl rfl, fun _ _ => rfl⟩ n s

/-- So do coalesced names, and the phis over one register copy nothing. -/
theorem run_coalescePhiNames (names : NameMap) (hcovered : f.PhisCovered)
    (hapart : f.NamesApart pred entry (coalescePhiNames f names).shown) (n : Nat)
    (store : String → Value) (s : σ) :
    m.runNamed (coalescePhiNames f names).shown f n pred entry store s =
        m.run f n pred entry (fun v => store ((coalescePhiNames f names).shown v)) s ∧
      ∀ phi ∈ f.phis, phi.sameRegister = true → ∀ arg ∈ phi.args,
        (coalescePhiNames f names).shown arg.2 = (coalescePhiNames f names).shown phi.dst :=
  ⟨hapart.runNamed_eq hcovered n store s,
    fun _ hphi hsame _ harg => shown_sameRegister names hphi hsame harg⟩

end Apart

/-- A load, and a return of the phi behind it. -/
def joinedValue : SsaFunction :=
  ⟨[{
    id := 0
    phis := []
    ops := [⟨"LoadParam", some ⟨0, 1⟩, [.dstPlaceholder, .const 1], ⟨0, 3, "LoadParam", []⟩⟩]
    successors := [1]
    predecessors := [] }, {
    id := 1
    phis := [⟨⟨0, 2⟩, [(0, ⟨0, 1⟩)]⟩]
    ops := [⟨"Ret", none, [.var ⟨0, 2⟩], ⟨3, 2, "Ret", []⟩⟩]
    successors := []
    predecessors := [0] }]⟩

/-- Where its variables are live. -/
inductive JoinedLive : Point → VarId → Prop
  | loaded (i : Nat) : JoinedLive (.mid 0 (i + 1)) ⟨0, 1⟩
  | joined (i : Nat) : JoinedLive (.mid 1 i) ⟨0, 2⟩

theorem joinedValue_block? {id : BlockId} {b : SsaBlock} (h : joinedValue.block? id = some b) :
    (id = 0 ∧ b.phis = [] ∧ b.successors = [1] ∧
      b.ops = [⟨"LoadParam", some ⟨0, 1⟩, [.dstPlaceholder, .const 1], ⟨0, 3, "LoadParam", []⟩⟩]) ∨
    (id = 1 ∧ b.phis = [⟨⟨0, 2⟩, [(0, ⟨0, 1⟩)]⟩] ∧ b.successors = [] ∧
      b.ops = [⟨"Ret", none, [.var ⟨0, 2⟩], ⟨3, 2, "Ret", []⟩⟩]) := by
  have hid := id_of_block? h
  rcases List.mem_cons.mp (mem_blocks_of_block? h) with rfl | hb
  · exact Or.inl ⟨hid.symm, rfl, rfl, rfl⟩
  · obtain rfl := List.mem_singleton.mp hb
    exact Or.inr ⟨hid.symm, rfl, rfl, rfl⟩

theorem joinedValue_phi {id : BlockId} {b : SsaBlock} {phi : Phi}
    (hblock : joinedValue.block? id = some b) (hphi : phi ∈ b.phis) :
    id = 1 ∧ phi = ⟨⟨0, 2⟩, [(0, ⟨0, 1⟩)]⟩ := by
  rcases joinedValue_block? hblock with ⟨-, hphis, -⟩ | ⟨hid, hphis, -⟩ <;> rw [hphis] at hphi
  · cases hphi
  · exact ⟨hid, List.mem_singleton.mp hphi⟩

theorem joinedValue_op? {id : BlockId} {b : SsaBlock} {i : Nat} {op : SsaOp}
    (hblock : joinedValue.block? id = some b) (hop : b.ops[i]? = some op) :
    (id = 0 ∧ i = 0 ∧ op.dst = some ⟨0, 1⟩ ∧ op.reads = []) ∨
      (id = 1 ∧ i = 0 ∧ op.dst = none ∧ op.reads = [⟨0, 2⟩]) := by
  rcases joinedValue_block? hblock with ⟨hid, -, -, hops⟩ | ⟨hid, -, -, hops⟩ <;>
    rw [hops, List.getElem?_singleton] at hop <;> split at hop
  · next hi =>
    cases hop
    exact Or.inl ⟨hid, hi, rfl, rfl⟩
  · cases hop
  · next hi =>
    cases hop
    exact Or.inr ⟨hid, hi, rfl, rfl⟩
  · cases hop

theorem joinedValue_edge {id succ : BlockId} {b : SsaBlock}
    (hblock : joinedValue.block? id = some b) (hsucc : succ ∈ b.successors) :
    id = 0 ∧ b.ops.length = 1 := by
  rcases joinedValue_block? hblock with ⟨hid, -, -, hops⟩ | ⟨-, -, hsuccs, -⟩
  · exact ⟨hid, congrArg List.length hops⟩
  · rw [hsuccs] at hsucc
    cases hsucc

theorem joinedValue_covered : joinedValue.PhisCovered := by
  intro p b' id b phi hfrom hsucc hblock hphi
  obtain ⟨-, rfl⟩ := joinedValue_phi hblock hphi
  obtain ⟨rfl, -⟩ := joinedValue_edge hfrom hsucc
  exact List.mem_singleton_self _

theorem joinedValue_defs {q : Point} {w : VarId} (h : FlowDefs joinedValue q w) :
    (q = .mid 0 1 ∧ w = ⟨0, 1⟩) ∨ (q = .mid 1 0 ∧ w = ⟨0, 2⟩) := by
  cases h with
  | phi hblock hphi =>
    obtain ⟨rfl, rfl⟩ := joinedValue_phi hblock hphi
    exact Or.inr ⟨rfl, rfl⟩
  | op hblock hop hdst =>
    obtain ⟨rfl, rfl, hload, -⟩ | ⟨-, -, hnone, -⟩ := joinedValue_op? hblock hop
    · exact Or.inl ⟨rfl, Option.some.inj (hdst.symm.trans hload)⟩
    · rw [hnone] at hdst
      cases hdst

/-- Where a variable is live, only its own definition takes its name. -/
theorem joinedValue_namesApart (pred : BlockId) (name : VarId → String) :
    joinedValue.NamesApart pred 0 name := by
  intro p q v hstep hreads
  refine @FlowGraph.not_clobbered _ _ _ _ _ JoinedLive (fun q v w hlive hdef _ => ?_)
    (fun p q v hstep hlive hno => ?_) _ _ ?_
  · rcases joinedValue_defs hdef with ⟨rfl, rfl⟩ | ⟨rfl, rfl⟩ <;> cases hlive <;> rfl
  · cases hlive with
    | loaded i =>
      cases hstep with
      | op _ _ =>
        cases i with
        | zero =>
          have hdef : FlowDefs joinedValue (.mid 0 1) ⟨0, 1⟩ := .op rfl rfl rfl
          exact absurd hdef hno
        | succ i => exact .loaded i
    | joined i =>
      cases hstep with
      | op _ _ => exact .joined _
      | jump _ _ _ =>
        have hdef : FlowDefs joinedValue (.mid 1 0) (Phi.mk ⟨0, 2⟩ [(0, ⟨0, 1⟩)]).dst :=
          .phi rfl (List.mem_singleton_self _)
        exact absurd hdef hno
  · cases hreads with
    | phi hblock hphi harg =>
      obtain ⟨rfl, rfl⟩ := joinedValue_phi hblock hphi
      cases hstep with
      | @jump _ _ _ _ hfrom hsucc _ =>
        obtain ⟨rfl, hlength⟩ := joinedValue_edge hfrom hsucc
        obtain ⟨-, rfl⟩ := Prod.mk.inj (List.mem_singleton.mp harg)
        rw [hlength]
        exact .loaded 0
    | op hblock hop hv =>
      rcases joinedValue_op? hblock hop with ⟨-, -, -, hreads⟩ | ⟨rfl, rfl, -, hreads⟩ <;>
        rw [hreads] at hv
      · cases hv
      · obtain rfl := List.mem_singleton.mp hv
        cases hstep
        exact .joined 0

/-- The phi and its argument have one name, under which the run returns what was loaded. -/
theorem run_coalescePhiNames_joinedValue : joinedValue.PhisCovered ∧ ∀ n pred store s,
    showingMachine.runNamed (coalescePhiNames joinedValue .empty).shown joinedValue n pred 0 store
          s =
        showingMachine.run joinedValue n pred 0
          (fun v => store ((coalescePhiNames joinedValue .empty).shown v)) s ∧
      ∀ phi ∈ joinedValue.phis, phi.sameRegister = true → ∀ arg ∈ phi.args,
        (coalescePhiNames joinedValue .empty).shown arg.2 =
          (coalescePhiNames joinedValue .empty).shown phi.dst :=
  ⟨joinedValue_covered, fun n pred store s =>
    run_coalescePhiNames .empty joinedValue_covered (joinedValue_namesApart pred _) n store s⟩

/-! ## Without copies -/

section Dropped

variable {f : SsaFunction} {name : VarId → String} {Value σ Event : Type}
  {m : Machine Value σ Event}

end Dropped

/-! ## What `build_ssa` returns -/

/-- Current versions have the values of their names, and the loads in the beginning change
nothing. -/
def VersionsHold {Value : Type} (undef : Value) (f : SsaFunction) (entry : BlockId)
    (synth : List VarId) (versions : BlockId → Nat → Option VarId) (name : VarId → String) :
    Point → (VarId → Value) → (String → Value) → Prop
  | .start, values, store => values = (fun _ => undef) ∧ store = fun _ => undef
  | .mid id i, values, store => (∃ b, f.block? entry = some b) ∧
    (∀ b, f.block? id = some b → ∀ r v,
      versionsBehind synth (versions id) (b.ops.take i) r = some v → store (name v) = values v) ∧
    (id = entry → i ≤ synth.length → values = (fun _ => undef) ∧ store = fun _ => undef)

section Versions

variable {f : SsaFunction} {pred entry : BlockId} {synth : List VarId}
  {versions : BlockId → Nat → Option VarId} {name : VarId → String} {Value σ Event : Type}
  {m : Machine Value σ Event} {undef : Value}

/-- The variable is the current version of its register. -/
def CurrentAt (f : SsaFunction) (versions : BlockId → Nat → Option VarId) : Point → VarId → Prop
  | .start, _ => True
  | .mid id i, v => ∀ b, f.block? id = some b →
    versionsBehind [] (versions id) (b.ops.take i) v.reg = some v

/-- Where no variable is undefined, names that tell registers apart are only read for the current
version. -/
theorem SsaFunction.Renamed.namesApart (hf : f.Renamed [] versions)
    (hname : ∀ v w, name v = name w → v.reg = w.reg) : f.NamesApart pred entry name := by
  intro p q v hstep hread
  have hwritten : ∀ {id : BlockId} {b : SsaBlock} {i : Nat} {op : SsaOp} {w : VarId},
      b.ops[i]? = some op → op.dst = some w →
      versionsBehind [] (versions id) (b.ops.take (i + 1)) =
        Function.update (versionsBehind [] (versions id) (b.ops.take i)) w.reg (some w) := by
    intro id b i op w hop hdst
    rw [versionsBehind_take_succ hop]
    simp only [writeVersion, hdst, List.not_mem_nil, if_false]
  refine @FlowGraph.not_clobbered _ _ _ _ _ (CurrentAt f versions) (fun q v w hlive hdef hsame => ?_)
    (fun p q v hstep hlive hno => ?_) _ _ ?_
  · have hreg : w.reg = v.reg := hname w v hsame
    cases hdef with
    | @phi id b phi hblock hphi =>
      have hv := hlive b hblock
      have hw := hf.phi id b phi hblock hphi
      rw [hreg] at hw
      exact Option.some.inj (hw.symm.trans hv)
    | @op id b i op w hblock hop hdst =>
      have hv := hlive b hblock
      rw [hwritten hop hdst, hreg, Function.update_self] at hv
      exact Option.some.inj hv
  · cases hstep with
    | enter _ => trivial
    | @op id b i hblock hi =>
      intro b' hb'
      obtain rfl := Option.some.inj (hblock.symm.trans hb')
      have hop : b.ops[i]? = some b.ops[i] := List.getElem?_eq_getElem hi
      have hv := hlive b hblock
      cases hdst : b.ops[i].dst with
      | none =>
        rw [versionsBehind_take_succ hop, writeVersion, hdst] at hv
        exact hv
      | some w =>
        rw [hwritten hop hdst] at hv
        by_cases hr : v.reg = w.reg
        · rw [hr, Function.update_self] at hv
          exact absurd (Option.some.inj hv ▸ FlowDefs.op hblock hop hdst) hno
        · rwa [Function.update_of_ne hr] at hv
    | @jump id b succ b' hblock hsucc hblock' =>
      intro b₁ hb₁
      obtain rfl := Option.some.inj (hblock.symm.trans hb₁)
      rw [List.take_length]
      refine hf.through id b succ b' v.reg v hblock hsucc hblock' (hlive b' hblock') fun hmem => ?_
      obtain ⟨phi, hphi, rfl⟩ := List.mem_map.mp hmem
      exact hno (.phi hblock' hphi)
  · cases hread with
    | @phi id b phi _ hblock hphi harg =>
      cases hstep with
      | enter _ => trivial
      | @jump p' b' _ _ hfrom hsucc _ =>
        intro b₁ hb₁
        obtain rfl := Option.some.inj (hfrom.symm.trans hb₁)
        have hv := hf.arg p' b' id b phi v hfrom hsucc hblock hphi harg
        have hreg : v.reg = phi.dst.reg := (hf.own p').behind _ _ v hv
        rw [List.take_length, hreg]
        exact hv
    | @op id b i op _ hblock hop hv =>
      cases hstep with
      | op _ _ =>
        intro b₁ hb₁
        obtain rfl := Option.some.inj (hblock.symm.trans hb₁)
        exact hf.reads id b i op hblock hop v hv

theorem SsaFunction.Started.getElem?_preamble (hs : f.Started pred entry synth versions)
    {b : SsaBlock} (hblock : f.block? entry = some b) {j : Nat} {v : VarId}
    (hj : synth[j]? = some v) : b.ops[j]? = some (syntheticOp v) := by
  obtain ⟨rest, hops⟩ := hs.preamble b hblock
  have hlt : j < synth.length := (List.getElem?_eq_some_iff.mp hj).1
  rw [hops, List.getElem?_append_left (by simpa using hlt), List.getElem?_map, hj, Option.map_some]

/-- The synthetic loads are nowhere else. -/
theorem SsaFunction.Started.at_entry (hs : f.Started pred entry synth versions)
    (honce : f.defs.Nodup) (hfirst : ∃ b, f.block? entry = some b) {id : BlockId} {b : SsaBlock}
    {i : Nat} {op : SsaOp} {w : VarId} (hblock : f.block? id = some b) (hop : b.ops[i]? = some op)
    (hdst : op.dst = some w) (hw : w ∈ synth) : id = entry ∧ i < synth.length := by
  obtain ⟨b₀, hb₀⟩ := hfirst
  obtain ⟨j, hj⟩ := List.mem_iff_getElem?.mp hw
  have hdef : FlowDefs f (.mid entry (j + 1)) w := .op hb₀ (hs.getElem?_preamble hb₀ hj) rfl
  have heq := FlowDefs.unique honce (.op hblock hop hdst) hdef
  injection heq with hid hi
  have hlt := (List.getElem?_eq_some_iff.mp hj).1
  exact ⟨hid, by omega⟩

theorem enterNamed_const (name : VarId → String) (phis : List Phi) (source : BlockId)
    (undef : Value) :
    Machine.enterNamed name phis source (fun _ => undef) = fun _ => undef := by
  funext text
  unfold Machine.enterNamed
  split <;> rfl

theorem assign_const (undef : Value) (w : VarId) :
    Machine.assign (fun _ => undef) (some w) undef = fun _ => undef :=
  Function.update_eq_self w fun _ => undef

theorem assignName_const (name : VarId → String) (undef : Value) (w : VarId) :
    Machine.assignName name (fun _ => undef) (some w) undef = fun _ => undef :=
  Function.update_eq_self (name w) fun _ => undef

/-- A write makes its variable the current version, and leaves the names of the others. -/
theorem assignName_current {current : Nat → Option VarId} (hown : OwnVersions current)
    (hname : ∀ v w, name v = name w → v.reg = w.reg) {values : VarId → Value}
    {store : String → Value} (hcurrent : ∀ r v, current r = some v → store (name v) = values v)
    (w : VarId) (value : Value) {r : Nat} {v : VarId}
    (hv : Function.update current w.reg (some w) r = some v) :
    Machine.assignName name store (some w) value (name v) =
      Machine.assign values (some w) value v := by
  by_cases hr : r = w.reg
  · subst hr
    rw [Function.update_self] at hv
    obtain rfl := Option.some.inj hv
    rw [Machine.assignName, Machine.assign, Function.update_self, Function.update_self]
  · rw [Function.update_of_ne hr] at hv
    have hreg : v.reg = r := hown r v hv
    have hne : v ≠ w := fun heq => hr (by rw [← hreg, heq])
    have hne' : name v ≠ name w := fun heq => hr (by rw [← hreg, hname v w heq])
    rw [Machine.assignName, Machine.assign, Function.update_of_ne hne, Function.update_of_ne hne']
    exact hcurrent r v hv

/-- Names that tell registers apart have the values of the current versions. -/
theorem SsaFunction.Renamed.represents (hf : f.Renamed synth versions) (honce : f.defs.Nodup)
    (hs : f.Started pred entry synth versions)
    (hentry : ∀ p b b', f.block? p = some b → f.block? entry = some b' → entry ∉ b.successors)
    (hname : ∀ v w, name v = name w → v.reg = w.reg) (hundef : LoadsUndefined m undef) :
    m.Represents name f pred entry (VersionsHold undef f entry synth versions name) where
  enter := by
    intro p id b values store hblock hstep hinv
    cases hstep with
    | enter _ =>
      obtain ⟨rfl, rfl⟩ := hinv
      rw [enterPhis_const, enterNamed_const]
      exact ⟨⟨b, hblock⟩, fun _ _ _ _ _ => rfl, fun _ _ => ⟨rfl, rfl⟩⟩
    | @jump p' b' _ _ hfrom hsucc _ =>
      refine ⟨hinv.1, fun b₁ hb₁ r v hv => ?_, fun hid => ?_⟩
      · obtain rfl := Option.some.inj (hblock.symm.trans hb₁)
        have hv : versions id r = some v := hv
        have hbehind : ∀ r u, versionsBehind synth (versions p') b'.ops r = some u →
            store (name u) = values u := by
          intro r u hu
          rw [← List.take_length (l := b'.ops)] at hu
          exact hinv.2.1 b' hfrom r u hu
        refine Machine.enterNamed_eq (fun phi hphi hsame => ?_) (fun phi hphi hdst u hu => ?_) ?_
        · have hphi' := hf.phi id b phi hblock hphi
          rw [hname _ _ hsame, hf.own id r v hv, hv] at hphi'
          exact (Option.some.inj hphi').symm
        · exact hbehind _ u (hf.arg p' b' id b phi u hfrom hsucc hblock hphi hu)
        · by_cases hmem : v ∈ b.phis.map Phi.dst
          · obtain ⟨phi, hphi, hdst⟩ := List.mem_map.mp hmem
            exact Or.inr ⟨⟨phi, hphi, hdst⟩, fun phi' hphi' _ =>
              hf.covered p' b' id b phi' hfrom hsucc hblock hphi'⟩
          · exact Or.inl (hbehind r v (hf.through p' b' id b r v hfrom hsucc hblock hv hmem))
      · subst hid
        exact absurd hsucc (hentry p' b' b hfrom hblock)
  reads := by
    intro id b i op values store hblock hop hinv v hv
    exact hinv.2.1 b hblock v.reg v (hf.reads id b i op hblock hop v hv)
  op := by
    intro id b i op values store s hblock hop hinv
    obtain ⟨hfirst, hcurrent, hconst⟩ := hinv
    have hbehind : versionsBehind synth (versions id) (b.ops.take (i + 1)) =
        writeVersion synth (versionsBehind synth (versions id) (b.ops.take i)) op :=
      versionsBehind_take_succ hop
    cases hdst : op.dst with
    | none =>
      refine ⟨hfirst, fun b₁ hb₁ r v hv => ?_, fun hid hi => hconst hid (Nat.le_of_succ_le hi)⟩
      obtain rfl := Option.some.inj (hblock.symm.trans hb₁)
      rw [hbehind, writeVersion, hdst] at hv
      exact hcurrent b hblock r v hv
    | some w =>
      by_cases hw : w ∈ synth
      · -- a load of what is there already
        obtain ⟨rfl, hi⟩ := hs.at_entry honce hfirst hblock hop hdst hw
        obtain ⟨rfl, rfl⟩ := hconst rfl (Nat.le_of_lt hi)
        obtain rfl := hf.undefined op (SsaFunction.mem_ops_at hblock hop) w hw hdst
        have hvalue : (m.exec (syntheticOp w) ((syntheticOp w).reads.map fun _ => undef) s).value =
            undef := (hundef w s).1
        rw [hvalue, assign_const, assignName_const]
        exact ⟨hfirst, fun _ _ _ _ _ => rfl, fun _ _ => ⟨rfl, rfl⟩⟩
      · refine ⟨hfirst, fun b₁ hb₁ r v hv => ?_, fun hid hi => ?_⟩
        · obtain rfl := Option.some.inj (hblock.symm.trans hb₁)
          rw [hbehind] at hv
          simp only [writeVersion, hdst, if_neg hw] at hv
          exact assignName_current ((hf.own id).behind _) hname (hcurrent b hblock) w _ hv
        · subst hid
          have hlt : i < synth.length := hi
          have hload := hs.getElem?_preamble hblock (List.getElem?_eq_getElem hlt)
          obtain rfl := Option.some.inj (hop.symm.trans hload)
          obtain rfl := Option.some.inj hdst
          exact absurd (List.getElem_mem hlt) hw

end Versions

/-! ## From the instructions to names -/

/-- What is written of a register are versions of it. -/
theorem CommonBuilder.History.own {σ : Type} {B : CommonBuilder σ} {g : SsaCfg}
    (hB : ∀ s reg v s', B.newVar s reg = .ok (v, s') → v.reg = reg) {calls : List Call} {s : σ}
    (h : B.History g calls s) : (∀ reg v, Call.newVar reg v ∈ calls → v.reg = reg) ∧
      ∀ b, OwnVersions (written calls b) := by
  induction h with
  | new =>
    exact ⟨fun _ _ hmem => absurd hmem List.not_mem_nil, fun _ _ _ hu => by cases hu⟩
  | read _ _ _ ih =>
    rw [written_append_read]
    exact ⟨fun reg v hmem => ih.1 reg v (by simpa using hmem), ih.2⟩
  | @newVar calls s reg v s' _ hnew ih =>
    rw [written_append_newVar]
    refine ⟨fun reg' v' hmem => ?_, ih.2⟩
    rcases List.mem_append.mp hmem with hmem | hmem
    · exact ih.1 reg' v' hmem
    · obtain ⟨rfl, rfl⟩ := Call.newVar.inj (List.mem_singleton.mp hmem)
      exact hB s _ _ s' hnew
  | @write calls s bid reg v _ _ hmade ih =>
    refine ⟨fun reg' v' hmem => ih.1 reg' v' (by simpa using hmem), fun b r u hu => ?_⟩
    rw [written_append_write] at hu
    split at hu
    · next heq =>
      obtain rfl := Option.some.inj hu
      rw [ih.1 reg _ hmade, heq.2]
    · exact ih.2 b r u hu

section Pipeline

variable {Value τ Event σ : Type} {m : Machine Value τ Event} {undef : Value}
  {B : CommonBuilder σ} {types : DecodedInst → List OpType} {unwritten : σ → VarId → Prop}
  {cfg : Cfg} {frameSize : Nat} {t : OpcodeTables} {code bytecodes : List UInt8}
  {insts : List DecodedInst} {excHandlers : List ExcHandler} {built : BuiltSsa}

/-- Where the post-pass defines nothing, the coalesced names of what `build_ssa` returns are only
read for the current version. -/
theorem namesApart_of_buildSsa (hdecode : decodeFunction t code = .ok insts)
    (hcfg : Cfg.build insts excHandlers bytecodes = .ok cfg)
    (hlawful : B.Lawful (cfgAdapter cfg) unwritten) (hversions : B.ReadsVersions (cfgAdapter cfg))
    (hbuild : buildSsa B types cfg frameSize = .ok built)
    (hentry : Renaming.allPredecessors (cfgAdapter cfg) cfg.entry = [])
    (hdefined : ∀ op ∈ built.function.ops, ∀ v, op ≠ syntheticOp v) (pred : BlockId) :
    built.function.NamesApart pred cfg.entry (coalescePhiNames built.function .empty).shown := by
  obtain ⟨program, synth, versions, hprogram, hbuilt⟩ :=
    buildSsa_builtVersions hdecode hcfg hlawful hversions hbuild
  have hmem : cfg.entry ∈ cfg.blocks.keys :=
    (reversePostOrder_of_build hcfg).perm.mem_iff.mp
      (List.mem_of_head? (reversePostOrder_of_build hcfg).first)
  obtain ⟨block, hget⟩ := OrdMap.mem_keys_iff.mp hmem
  have hfound := block?_registers synth built.function cfg.entry
  rw [hbuilt.registers, block?_registerProgram hcfg hprogram, hget, Option.map_some] at hfound
  obtain ⟨b, hblock, -⟩ := Option.map_eq_some_iff.mp hfound.symm
  obtain ⟨rest, hops⟩ := (hbuilt.started hentry pred).preamble b hblock
  have hnone : synth = [] := by
    refine List.eq_nil_iff_forall_not_mem.mpr fun v hv => ?_
    have hop : syntheticOp v ∈ b.ops := by
      rw [hops]
      exact List.mem_append_left _ (List.mem_map_of_mem hv)
    exact hdefined _ (SsaFunction.mem_ops.mpr ⟨b, mem_blocks_of_block? hblock, hop⟩) v rfl
  subst hnone
  exact hbuilt.renamed.namesApart fun _ _ => reg_eq_of_shown (f := built.function)

end Pipeline

end Hermes.Decompile
