-- SUMMARY: What the patterns of a block make of each of its operations, and which operations they drop.
import DroidsawHermes.Decompile.Closed
import Mathlib.Logic.Relation

/-!
# Operations under the patterns

The patterns replace variables by variables and give operations new names and
operands. `Edge` says which variable they put in the place of which; every later
fact about the operations of a rewritten block goes through it.
-/

namespace Hermes.Decompile

/-! ## Replaced variables -/

section

variable (getStr : Nat → String) (s : SsaFunction)

/-- `sel` is the result of a `SelectObject` that goes with a construct of result `con`. -/
def SelectEdge (sel con : VarId) : Prop :=
  ∃ b ∈ s.blocks, ∃ f ∈ constructFolds b.ops, ∃ ct, f.createDst = some ct ∧
    f.constructDst = some con ∧ ∃ op ∈ s.ops, op.selects ct = true ∧ op.dst = some sel

/-- `src` is the result of an async wrapper call on the closure `dst`. -/
def WrapEdge (src dst : VarId) : Prop :=
  ∃ b ∈ s.blocks, ∃ op ∈ b.ops, ∃ r, asyncRewrite getStr b.ops op = some r ∧ r.src = src ∧
    r.dst = dst

/-- The patterns put `dst` in the place of `src`. -/
def Edge (src dst : VarId) : Prop := SelectEdge s src dst ∨ WrapEdge getStr s src dst

end

/-- A replacement that goes along the edges. -/
def Redirects (E : VarId → VarId → Prop) (τ : VarId → VarId) : Prop :=
  ∀ v, Relation.ReflTransGen E v (τ v)

theorem Redirects.id (E : VarId → VarId → Prop) : Redirects E fun v => v :=
  fun _ => Relation.ReflTransGen.refl

theorem Redirects.replaceVar {E : VarId → VarId → Prop} {src dst : VarId} (h : E src dst) :
    Redirects E (Decompile.replaceVar src dst) := by
  intro v
  simp only [Decompile.replaceVar]
  split
  · next heq => exact heq ▸ Relation.ReflTransGen.single h
  · exact Relation.ReflTransGen.refl

theorem Redirects.comp {E : VarId → VarId → Prop} {τ τ' : VarId → VarId} (h : Redirects E τ)
    (h' : Redirects E τ') : Redirects E (τ' ∘ τ) := fun v => (h v).trans (h' (τ v))

/-- A variable that nothing is replaced by comes from itself. -/
theorem eq_of_moved {E : VarId → VarId → Prop} {u v : VarId} (h : Relation.ReflTransGen E u v)
    (hv : ∀ w, ¬ E w v) : u = v := by
  rcases Relation.ReflTransGen.cases_tail h with heq | ⟨w, -, hw⟩
  · exact heq.symm
  · exact absurd hw (hv w)

theorem SsaOperand.mapVar_comp (τ τ' : VarId → VarId) (o : SsaOperand) :
    (o.mapVar τ).mapVar τ' = o.mapVar (τ' ∘ τ) := by
  cases o <;> rfl

theorem SsaOperand.mapVar_eq_var {τ : VarId → VarId} {o : SsaOperand} {v : VarId}
    (h : o.mapVar τ = .var v) : ∃ u, o = .var u ∧ τ u = v := by
  cases o with
  | var u =>
    simp only [mapVar, var.injEq] at h
    exact ⟨u, rfl, h⟩
  | _ => cases h

/-! ## Images of operations -/

def isGeneratorClosure (name : String) : Bool := startsWith name "CreateGeneratorClosure"

/-- The renaming of a construct. -/
def ConstructRenamed (name name' : String) : Prop :=
  (name = "Construct" ∨ name = "ConstructLong") ∧ name' = "ConstructNew"

/-- The renaming of a closure. -/
def ClosureRenamed (name name' : String) : Prop :=
  isGeneratorClosure name = true ∧ name' = "CreateAsyncClosure"

/-- An operation whose variables have moved along `E` and whose name may have changed
as `N` says. -/
structure Image (E : VarId → VarId → Prop) (N : String → String → Prop) (op op' : SsaOp) :
    Prop where
  dst : op'.dst = op.dst
  original : op'.original = op.original
  operands : ∃ τ, Redirects E τ ∧ op'.operands = op.operands.map (SsaOperand.mapVar τ)
  name : op'.name = op.name ∨ N op.name op'.name

namespace Image

variable {E : VarId → VarId → Prop} {N : String → String → Prop} {op op' : SsaOp}

theorem refl (op : SsaOp) : Image E N op op where
  dst := rfl
  original := rfl
  operands := by
    refine ⟨fun v => v, Redirects.id E, ?_⟩
    conv_lhs => rw [← List.map_id op.operands]
    exact List.map_congr_left fun o _ => by cases o <;> rfl
  name := Or.inl rfl

theorem replace (h : Image E N op op') {src dst : VarId} (hedge : E src dst) :
    Image E N op (op'.replaceVar src dst) where
  dst := h.dst
  original := h.original
  operands := by
    obtain ⟨τ, hτ, hoperands⟩ := h.operands
    refine ⟨_, hτ.comp (Redirects.replaceVar hedge), ?_⟩
    simp only [SsaOp.replaceVar, SsaOp.mapOperands, hoperands, List.map_map]
    exact List.map_congr_left fun o _ => SsaOperand.mapVar_comp _ _ o
  name := h.name

theorem rename (h : Image E N op op') {name : String} (hname : N op.name name) :
    Image E N op { op' with name := name } :=
  ⟨h.dst, h.original, h.operands, Or.inr hname⟩

theorem mem_reads (h : Image E N op op') {v : VarId} (hv : v ∈ op'.reads) :
    ∃ u ∈ op.reads, Relation.ReflTransGen E u v := by
  obtain ⟨τ, hτ, hoperands⟩ := h.operands
  rw [SsaOp.mem_reads, hoperands] at hv
  obtain ⟨o, ho, heq⟩ := List.mem_map.mp hv
  obtain ⟨u, rfl, rfl⟩ := SsaOperand.mapVar_eq_var heq
  exact ⟨u, SsaOp.mem_reads.mpr ho, hτ u⟩

/-- A variable that nothing is replaced by is not read more often. -/
theorem count_reads_le (h : Image E N op op') {v : VarId} (hv : ∀ u, ¬ E u v) :
    op'.reads.count v ≤ op.reads.count v := by
  obtain ⟨τ, hτ, hoperands⟩ := h.operands
  rw [SsaOp.reads, SsaOp.reads, List.count_filterMap, List.count_filterMap, hoperands,
    List.countP_map]
  refine List.countP_mono_left fun o _ ho => ?_
  cases o with
  | var u =>
    simp only [Function.comp_apply, SsaOperand.mapVar, SsaOperand.var?, Option.some_beq_some,
      beq_iff_eq] at ho ⊢
    exact eq_of_moved (ho ▸ hτ u) hv
  | _ => simp [SsaOperand.mapVar, SsaOperand.var?] at ho

end Image

/-! ## Constructs -/

section

variable {ops : List SsaOp}

theorem selectIndex_eq_some {v : VarId} {start k : Nat} (h : selectIndex ops v start = some k) :
    start ≤ k ∧ ∃ op, ops[k]? = some op ∧ op.selects v = true := by
  have hk := List.find?_some h
  simp only [Bool.and_eq_true, decide_eq_true_eq, Option.any_eq_true] at hk
  exact hk

/-- What a match of pattern A is. -/
structure FoldAt (ops : List SsaOp) (f : ConstructFold) : Prop where
  construct : ∃ op, ops[f.constructIdx]? = some op ∧ op.isConstruct = true ∧
    op.dst = f.constructDst
  create : ∃ op, ops[f.createIdx]? = some op ∧ op.dst = f.createDst ∧
    (op.name = "CreateThis" ∨ op.name = "CreateThisForNew" ∨ op.name = "CreateThisForSuper")

theorem SsaOp.createsThisFor_name {callee : Option SsaOperand} {op : SsaOp}
    (h : op.createsThisFor callee = true) :
    op.name = "CreateThis" ∨ op.name = "CreateThisForNew" ∨ op.name = "CreateThisForSuper" := by
  simp only [createsThisFor] at h
  split_ifs at h with hnew hthis
  · exact Or.inr hnew
  · exact Or.inl hthis

theorem foldAt_of_mem {f : ConstructFold} (h : f ∈ constructFolds ops) : FoldAt ops f := by
  obtain ⟨i, -, hf⟩ := List.mem_filterMap.mp h
  obtain ⟨op, hop, hf⟩ := Option.bind_eq_some_iff.mp hf
  split at hf
  · next hconstruct =>
    obtain ⟨ci, hci, hf⟩ := Option.bind_eq_some_iff.mp hf
    obtain ⟨create, hcreate, hf⟩ := Option.bind_eq_some_iff.mp hf
    simp only [Option.some.injEq] at hf
    subst hf
    refine ⟨⟨op, hop, hconstruct, rfl⟩, create, hcreate, rfl, ?_⟩
    have hmatch := List.find?_some hci
    simp only [hcreate, Option.any_some] at hmatch
    exact SsaOp.createsThisFor_name hmatch
  · cases hf

theorem ConstructFold.select_eq_some {f : ConstructFold} {k : Nat} {sel con : VarId}
    (h : f.select ops = some (k, sel, con)) :
    ∃ ct op, f.createDst = some ct ∧ f.constructDst = some con ∧
      selectIndex ops ct (f.constructIdx + 1) = some k ∧ ops[k]? = some op ∧
      op.selects ct = true ∧ op.dst = some sel := by
  obtain ⟨ct, hct, h⟩ := Option.bind_eq_some_iff.mp h
  obtain ⟨con', hcon, h⟩ := Option.bind_eq_some_iff.mp h
  obtain ⟨k', hk, h⟩ := Option.bind_eq_some_iff.mp h
  obtain ⟨sel', hsel, h⟩ := Option.bind_eq_some_iff.mp h
  cases h
  obtain ⟨-, op, hop, hselects⟩ := selectIndex_eq_some hk
  rw [hop, Option.bind_some] at hsel
  exact ⟨ct, op, hct, hcon, hk, hop, hselects, hsel⟩

theorem selectEdge_of_select {s : SsaFunction} {b : SsaBlock} (hb : b ∈ s.blocks)
    {f : ConstructFold} (hf : f ∈ constructFolds b.ops) {k : Nat} {sel con : VarId}
    (h : f.select b.ops = some (k, sel, con)) : SelectEdge s sel con := by
  obtain ⟨ct, op, hct, hcon, -, hop, hselects, hdst⟩ := ConstructFold.select_eq_some h
  exact ⟨b, hb, f, hf, ct, hct, hcon, op,
    SsaFunction.mem_ops.mpr ⟨b, hb, List.mem_of_getElem? hop⟩, hselects, hdst⟩

/-- Pattern A moves variables along the edges. -/
theorem foldConstructs_images {getStr : Nat → String} {s : SsaFunction} {b : SsaBlock}
    (hb : b ∈ s.blocks) :
    List.Forall₂ (Image (Edge getStr s) ConstructRenamed) b.ops (foldConstructs b.ops) := by
  have hrun : ∀ (fs : List ConstructFold) (current : List SsaOp),
      (∀ f ∈ fs, f ∈ constructFolds b.ops) →
      List.Forall₂ (Image (Edge getStr s) ConstructRenamed) b.ops current →
      List.Forall₂ (Image (Edge getStr s) ConstructRenamed) b.ops
        (fs.foldl (fun current f => f.apply b.ops current) current) := by
    intro fs
    induction fs with
    | nil => exact fun _ _ h => h
    | cons f fs ih =>
      intro current hfs himages
      have hf := hfs f List.mem_cons_self
      refine ih _ (fun g hg => hfs g (List.mem_cons_of_mem f hg)) ?_
      obtain ⟨op, hop, hconstruct, -⟩ := (foldAt_of_mem hf).construct
      have hrenamed : List.Forall₂ (Image (Edge getStr s) ConstructRenamed) b.ops
          (current.modify f.constructIdx fun op => { op with name := "ConstructNew" }) := by
        refine Edits.forall₂_modify himages fun x y hx hxy => hxy.rename ⟨?_, rfl⟩
        rw [hop, Option.some.injEq] at hx
        subst hx
        simpa [SsaOp.isConstruct] using hconstruct
      simp only [ConstructFold.apply]
      split
      · next k sel con hselect =>
        have hedge : Edge getStr s sel con := Or.inl (selectEdge_of_select hb hf hselect)
        exact Edits.forall₂_map_right hrenamed fun x y hxy => hxy.replace hedge
      · exact hrenamed
  exact hrun _ _ (fun f hf => hf) (List.forall₂_same.mpr fun op _ => Image.refl op)

end

/-! ## Method calls -/

section

variable {getStr : Nat → String} {snapshot : List SsaOp} {uses : VarId → Nat} {op : SsaOp}

theorem blockDef_eq_some {ops : List SsaOp} {v : VarId} {i : Nat} (h : blockDef ops v = some i) :
    ∃ op, ops[i]? = some op ∧ op.dst = some v := by
  have hi := List.find?_some h
  simpa only [Option.any_eq_true, decide_eq_true_eq] using hi

/-- What a match of pattern C is. -/
structure MethodAt (snapshot : List SsaOp) (uses : VarId → Nat) (op m : SsaOp) (idx : Nat)
    (first obj : SsaOperand) (callee : VarId) (args : List SsaOperand) (read : SsaOp) : Prop where
  short : isShortCall op.name = true
  operands : op.operands = first :: .var callee :: args
  read_mem : snapshot[idx]? = some read
  read_dst : read.dst = some callee
  read_name : read.isGetById = true
  read_obj : read.operands[1]? = some obj
  once : uses callee = 1
  method : ∃ property, m = { op with
    name := "MethodCall"
    operands := [first, obj, .resolvedString property] ++ args.drop 1 }

theorem methodCall_eq_some {m : SsaOp} {idx : Nat}
    (h : methodCall getStr snapshot uses op = some (m, idx)) :
    ∃ first obj callee args get, MethodAt snapshot uses op m idx first obj callee args get := by
  rcases hoperands : op.operands with _ | ⟨first, _ | ⟨second, args⟩⟩
  · simp [methodCall, hoperands] at h
  · simp [methodCall, hoperands] at h
  simp only [methodCall, hoperands] at h
  split at h
  · next hshort =>
    cases second with
    | var callee =>
      obtain ⟨i, hi, h⟩ := Option.bind_eq_some_iff.mp h
      obtain ⟨read, hread, h⟩ := Option.bind_eq_some_iff.mp h
      split at h
      · next hmatch =>
        obtain ⟨obj, hobj, h⟩ := Option.bind_eq_some_iff.mp h
        split at h
        · next sid hlast =>
          cases h
          obtain ⟨read', hread', hdst⟩ := blockDef_eq_some hi
          rw [hread, Option.some.injEq] at hread'
          subst hread'
          exact ⟨first, obj, callee, args, read, hshort, hoperands, hread, hdst, hmatch.1, hobj,
            hmatch.2, _, rfl⟩
        · cases h
      · cases h
    | _ => cases h
  · cases h

theorem toMethodCall_cases (getStr : Nat → String) (snapshot : List SsaOp) (uses : VarId → Nat)
    (op : SsaOp) :
    op.toMethodCall getStr snapshot uses = op ∨
      ∃ idx, methodCall getStr snapshot uses op = some (op.toMethodCall getStr snapshot uses, idx) := by
  simp only [SsaOp.toMethodCall]
  cases h : methodCall getStr snapshot uses op with
  | none => exact Or.inl rfl
  | some r => exact Or.inr ⟨r.2, rfl⟩

theorem toMethodCall_dst : (op.toMethodCall getStr snapshot uses).dst = op.dst := by
  rcases toMethodCall_cases getStr snapshot uses op with heq | ⟨idx, hm⟩
  · rw [heq]
  · obtain ⟨_, _, _, _, _, hat⟩ := methodCall_eq_some hm
    obtain ⟨property, heq⟩ := hat.method
    rw [heq]

theorem toMethodCall_of_not_short (h : isShortCall op.name = false) :
    op.toMethodCall getStr snapshot uses = op := by
  simp [SsaOp.toMethodCall, methodCall, h]

end

/-! ## Async wrappers -/

section

variable {getStr : Nat → String} {ops : List SsaOp} {uses : VarId → Nat} {op : SsaOp}

/-- What a match of pattern D is. -/
structure AsyncAt (ops : List SsaOp) (op : SsaOp) (r : AsyncRewrite) : Prop where
  name : op.name = "Call1" ∨ op.name = "Call" ∨ op.name = "CallLong"
  dst : op.dst = some r.src
  reads : r.dst ∈ op.reads
  closure : ∃ c, ops[r.closureIdx]? = some c ∧ c.dst = some r.dst ∧
    isGeneratorClosure c.name = true

theorem SsaOp.mem_of_closureArg {o : SsaOperand} (h : op.closureArg = some o) :
    o ∈ op.operands := by
  simp only [closureArg] at h
  split at h
  · exact List.mem_of_getElem? h
  · cases h4 : op.operands[4]? with
    | none =>
      rw [h4, Option.none_or] at h
      exact List.mem_of_getElem? h
    | some o' =>
      rw [h4, Option.some_or] at h
      cases h
      exact List.mem_of_getElem? h4

theorem asyncRewrite_eq_some {r : AsyncRewrite} (h : asyncRewrite getStr ops op = some r) :
    AsyncAt ops op r := by
  simp only [asyncRewrite] at h
  split at h
  · next hname =>
    split at h
    · next callee closure _ hclosure =>
      obtain ⟨wrapper, -, h⟩ := Option.bind_eq_some_iff.mp h
      obtain ⟨i, hi, h⟩ := Option.bind_eq_some_iff.mp h
      obtain ⟨c, hc, h⟩ := Option.bind_eq_some_iff.mp h
      obtain ⟨dst, hdst, h⟩ := Option.bind_eq_some_iff.mp h
      split at h
      · next hmatch =>
        cases h
        rw [Bool.and_eq_true] at hmatch
        obtain ⟨c', hc', hcdst⟩ := blockDef_eq_some hi
        rw [hc, Option.some.injEq] at hc'
        subst hc'
        exact ⟨hname, hdst, SsaOp.mem_reads.mpr (SsaOp.mem_of_closureArg hclosure), c, hc, hcdst,
          hmatch.2⟩
      · cases h
    · cases h
  · cases h

/-- The operations that the rewrite of async wrappers starts from. -/
def methodOps (getStr : Nat → String) (uses : VarId → Nat) (ops : List SsaOp) : List SsaOp :=
  (foldConstructs ops).map (SsaOp.toMethodCall getStr ops uses)

theorem isConstruct_of_isGeneratorClosure {name : String} (h : isGeneratorClosure name = true) :
    name ≠ "Construct" ∧ name ≠ "ConstructLong" ∧ isShortCall name = false := by
  refine ⟨?_, ?_, ?_⟩
  · rintro rfl
    exact absurd h (by decide)
  · rintro rfl
    exact absurd h (by decide)
  · by_contra hshort
    simp only [isShortCall, Bool.not_eq_false, Bool.or_eq_true, decide_eq_true_eq] at hshort
    rcases hshort with ((rfl | rfl) | rfl) | rfl <;> exact absurd h (by decide)

/-- A generator closure keeps its name up to the rewrite of async wrappers. -/
theorem methodOps_closure {s : SsaFunction} {b : SsaBlock} (hb : b ∈ s.blocks) {i : Nat}
    {c cur : SsaOp} (hc : b.ops[i]? = some c) (hname : isGeneratorClosure c.name = true)
    (hcur : (methodOps getStr uses b.ops)[i]? = some cur) : isGeneratorClosure cur.name = true := by
  obtain ⟨c', hc', himage⟩ := Edits.forall₂_getElem? (@foldConstructs_images getStr s b hb) hc
  rw [methodOps, List.getElem?_map, hc', Option.map_some, Option.some.injEq] at hcur
  have hclosure : isGeneratorClosure c'.name = true := by
    rcases himage.name with heq | ⟨hconstruct, -⟩
    · rwa [heq]
    · obtain ⟨hne, hne', -⟩ := isConstruct_of_isGeneratorClosure hname
      rcases hconstruct with h | h
      · exact absurd h hne
      · exact absurd h hne'
  rw [toMethodCall_of_not_short (isConstruct_of_isGeneratorClosure hclosure).2.2] at hcur
  rwa [← hcur]

/-- Pattern D moves variables along the edges. -/
theorem rewriteOps_images {s : SsaFunction} {b : SsaBlock} (hb : b ∈ s.blocks) :
    List.Forall₂ (Image (Edge getStr s) ClosureRenamed) (methodOps getStr uses b.ops)
      (rewriteOps getStr uses b.ops) := by
  have hrun : ∀ (rs : List AsyncRewrite) (current : List SsaOp),
      (∀ r ∈ rs, ∃ op ∈ b.ops, asyncRewrite getStr b.ops op = some r) →
      List.Forall₂ (Image (Edge getStr s) ClosureRenamed) (methodOps getStr uses b.ops) current →
      List.Forall₂ (Image (Edge getStr s) ClosureRenamed) (methodOps getStr uses b.ops)
        (rs.foldl AsyncRewrite.apply current) := by
    intro rs
    induction rs with
    | nil => exact fun _ _ h => h
    | cons r rs ih =>
      intro current hrs himages
      obtain ⟨op, hop, hr⟩ := hrs r List.mem_cons_self
      refine ih _ (fun q hq => hrs q (List.mem_cons_of_mem r hq)) ?_
      obtain ⟨c, hc, -, hname⟩ := (asyncRewrite_eq_some hr).closure
      have hedge : Edge getStr s r.src r.dst := Or.inr ⟨b, hb, op, hop, r, hr, rfl, rfl⟩
      have hrenamed : List.Forall₂ (Image (Edge getStr s) ClosureRenamed)
          (methodOps getStr uses b.ops)
          (current.modify r.closureIdx fun op => { op with name := "CreateAsyncClosure" }) := by
        refine Edits.forall₂_modify himages fun x y hx hxy => hxy.rename ⟨?_, rfl⟩
        exact methodOps_closure hb hc hname hx
      exact Edits.forall₂_map_right hrenamed fun x y hxy => hxy.replace hedge
  refine hrun _ _ (fun r hr => ?_) (List.forall₂_same.mpr fun op _ => Image.refl op)
  exact List.mem_filterMap.mp hr

/-- What becomes of one operation of a block: its image under pattern A, then pattern C,
then its image under pattern D. -/
structure Traced (getStr : Nat → String) (s : SsaFunction) (ops : List SsaOp) (uses : VarId → Nat)
    (op folded cur : SsaOp) : Prop where
  fold : Image (Edge getStr s) ConstructRenamed op folded
  unwrap : Image (Edge getStr s) ClosureRenamed (folded.toMethodCall getStr ops uses) cur

theorem rewriteOps_traced {s : SsaFunction} {b : SsaBlock} (hb : b ∈ s.blocks) {i : Nat}
    {cur : SsaOp} (hcur : (rewriteOps getStr uses b.ops)[i]? = some cur) :
    ∃ op folded, b.ops[i]? = some op ∧ (foldConstructs b.ops)[i]? = some folded ∧
      Traced getStr s b.ops uses op folded cur := by
  obtain ⟨m, hm, hunwrap⟩ := Edits.forall₂_getElem?_right (rewriteOps_images hb) hcur
  rw [methodOps, List.getElem?_map, Option.map_eq_some_iff] at hm
  obtain ⟨folded, hfolded, rfl⟩ := hm
  obtain ⟨op, hop, hfold⟩ := Edits.forall₂_getElem?_right (foldConstructs_images hb) hfolded
  exact ⟨op, folded, hop, hfolded, hfold, hunwrap⟩

theorem rewriteOps_forall₂ {s : SsaFunction} {b : SsaBlock} (hb : b ∈ s.blocks) :
    List.Forall₂ (fun op cur => ∃ folded, Traced getStr s b.ops uses op folded cur) b.ops
      (rewriteOps getStr uses b.ops) := by
  have hunwrap := @rewriteOps_images getStr uses s b hb
  rw [methodOps, List.forall₂_map_left_iff] at hunwrap
  exact Edits.forall₂_comp (foldConstructs_images hb) hunwrap fun op folded cur hfold hcur =>
    ⟨folded, hfold, hcur⟩

theorem Traced.dst {s : SsaFunction} {folded cur : SsaOp}
    (h : Traced getStr s ops uses op folded cur) : cur.dst = op.dst := by
  rw [h.unwrap.dst, toMethodCall_dst, h.fold.dst]

/-- A variable that is read now was read by the operation, or by a property read that
became part of a method call. -/
theorem Traced.mem_reads {s : SsaFunction} {folded cur : SsaOp}
    (h : Traced getStr s ops uses op folded cur) {v : VarId} (hv : v ∈ cur.reads) :
    ∃ u, Relation.ReflTransGen (Edge getStr s) u v ∧
      (u ∈ op.reads ∨ ∃ read ∈ ops, read.isGetById = true ∧ u ∈ read.reads) := by
  obtain ⟨w, hw, hwv⟩ := h.unwrap.mem_reads hv
  have hfold : ∀ x ∈ folded.reads, ∃ u ∈ op.reads, Relation.ReflTransGen (Edge getStr s) u x :=
    fun x hx => h.fold.mem_reads hx
  rcases toMethodCall_cases getStr ops uses folded with heq | ⟨idx, hm⟩
  · rw [heq] at hw
    obtain ⟨u, hu, huw⟩ := hfold w hw
    exact ⟨u, huw.trans hwv, Or.inl hu⟩
  · obtain ⟨first, obj, callee, args, read, hat⟩ := methodCall_eq_some hm
    obtain ⟨property, heq⟩ := hat.method
    rw [heq, SsaOp.mem_reads] at hw
    simp only [List.mem_append, List.mem_cons, List.not_mem_nil, or_false] at hw
    have hofOperand : ∀ o ∈ folded.operands, .var w = o → ∃ u,
        Relation.ReflTransGen (Edge getStr s) u v ∧
          (u ∈ op.reads ∨ ∃ read ∈ ops, read.isGetById = true ∧ u ∈ read.reads) := by
      rintro o ho rfl
      obtain ⟨u, hu, huw⟩ := hfold w (SsaOp.mem_reads.mpr ho)
      exact ⟨u, huw.trans hwv, Or.inl hu⟩
    rcases hw with (hw | hw | hw) | hw
    · exact hofOperand first (by rw [hat.operands]; exact List.mem_cons_self) hw
    · refine ⟨w, hwv, Or.inr ⟨read, List.mem_of_getElem? hat.read_mem, hat.read_name, ?_⟩⟩
      exact SsaOp.mem_reads.mpr (hw ▸ List.mem_of_getElem? hat.read_obj)
    · cases hw
    · refine hofOperand _ ?_ rfl
      rw [hat.operands]
      exact List.mem_cons_of_mem _ (List.mem_cons_of_mem _ (List.mem_of_mem_drop hw))

end

/-! ## Dropped operations -/

section

variable {getStr : Nat → String} {ops : List SsaOp} {uses : VarId → Nat}

/-- Why the patterns drop the operation at index `i`. -/
inductive Dropped (getStr : Nat → String) (ops : List SsaOp) (uses : VarId → Nat) (i : Nat)
    (op : SsaOp) : Prop where
  | create (f : ConstructFold) (hf : f ∈ constructFolds ops) (hdst : op.dst = f.createDst)
    (hname : op.name = "CreateThis" ∨ op.name = "CreateThisForNew" ∨ op.name = "CreateThisForSuper")
  | select (f : ConstructFold) (hf : f ∈ constructFolds ops) (sel con : VarId)
    (hselect : f.select ops = some (i, sel, con)) (hdst : op.dst = some sel)
  | read (folded m : SsaOp) (hfolded : folded ∈ foldConstructs ops)
    (hm : methodCall getStr ops uses folded = some (m, i))
  | wrapper (r : AsyncRewrite) (hr : asyncRewrite getStr ops op = some r)

theorem dropped_of_mem {i : Nat} {op : SsaOp} (h : i ∈ removeIndices getStr uses ops)
    (hop : ops[i]? = some op) : Dropped getStr ops uses i op := by
  simp only [removeIndices, List.mem_append, List.mem_flatMap, List.mem_filterMap,
    ConstructFold.removals, List.mem_cons, List.mem_map, Option.mem_toList, Option.map_eq_some_iff]
    at h
  rcases h with (⟨f, hf, rfl | ⟨⟨k, sel, con⟩, hselect, rfl⟩⟩ | ⟨folded, hfolded, ⟨m, j⟩, hm, rfl⟩) |
    hasync
  · obtain ⟨create, hcreate, hdst, hname⟩ := (foldAt_of_mem hf).create
    rw [hop, Option.some.injEq] at hcreate
    subst hcreate
    exact .create f hf hdst hname
  · obtain ⟨ct, op', -, -, -, hop', -, hdst⟩ := ConstructFold.select_eq_some hselect
    rw [hop, Option.some.injEq] at hop'
    subst hop'
    exact .select f hf sel con hselect hdst
  · exact .read folded m hfolded hm
  · have hmatch := (List.mem_filter.mp hasync).2
    rw [hop, Option.any_some, Option.isSome_iff_exists] at hmatch
    obtain ⟨r, hr⟩ := hmatch
    exact .wrapper r hr

/-! ## Replaced variables are gone -/

/-- Replacements one after the other. -/
def replaceAll (rs : List (VarId × VarId)) (v : VarId) : VarId :=
  rs.foldl (fun v r => replaceVar r.1 r.2 v) v

theorem replaceAll_not_mem {rs : List (VarId × VarId)} (h : ∀ r ∈ rs, r.2 ∉ rs.map Prod.fst)
    (v : VarId) : replaceAll rs v ∉ rs.map Prod.fst := by
  have hrun : ∀ (srcs : List VarId) (rs : List (VarId × VarId)), (∀ r ∈ rs, r.2 ∉ srcs) →
      ∀ v, replaceAll rs v ∈ srcs → replaceAll rs v = v ∧ v ∉ rs.map Prod.fst := by
    intro srcs rs
    induction rs with
    | nil => exact fun _ v _ => ⟨rfl, List.not_mem_nil⟩
    | cons r rs ih =>
      intro hrs v hmem
      obtain ⟨heq, hnot⟩ := ih (fun q hq => hrs q (List.mem_cons_of_mem r hq))
        (replaceVar r.1 r.2 v) hmem
      rw [replaceAll, List.foldl_cons] at hmem ⊢
      rw [replaceAll] at heq
      rw [heq] at hmem ⊢
      by_cases hv : v = r.1
      · simp only [replaceVar, if_pos hv] at hmem
        exact absurd hmem (hrs r List.mem_cons_self)
      · simp only [replaceVar, if_neg hv] at hnot ⊢
        simp [hv, hnot]
  intro hmem
  obtain ⟨heq, hnot⟩ := hrun _ rs h v hmem
  exact hnot (heq ▸ hmem)

theorem rewriteOps_operands {i : Nat} {cur : SsaOp}
    (hcur : (rewriteOps getStr uses ops)[i]? = some cur) :
    ∃ m : SsaOp, cur.operands = m.operands.map (SsaOperand.mapVar (replaceAll
      ((ops.filterMap (asyncRewrite getStr ops)).map fun r => (r.src, r.dst)))) := by
  have hrun : ∀ (rs : List AsyncRewrite) (start current : List SsaOp) (τ : VarId → VarId),
      List.Forall₂ (fun m cur : SsaOp => cur.operands = m.operands.map (SsaOperand.mapVar τ))
        start current →
      List.Forall₂ (fun m cur : SsaOp => cur.operands = m.operands.map (SsaOperand.mapVar
        (replaceAll (rs.map fun r => (r.src, r.dst)) ∘ τ))) start
        (rs.foldl AsyncRewrite.apply current) := by
    intro rs
    induction rs with
    | nil => exact fun _ _ _ h => h
    | cons r rs ih =>
      intro start current τ h
      refine ih start _ (replaceVar r.src r.dst ∘ τ) ?_
      have hmodify := Edits.forall₂_modify (i := r.closureIdx)
        (f := fun op => { op with name := "CreateAsyncClosure" }) h fun x y _ hxy => hxy
      refine Edits.forall₂_map_right hmodify fun x y hxy => ?_
      simp only [SsaOp.replaceVar, SsaOp.mapOperands, hxy, List.map_map]
      exact List.map_congr_left fun o _ => SsaOperand.mapVar_comp _ _ o
  have hstart : List.Forall₂ (fun m cur : SsaOp => cur.operands =
      m.operands.map (SsaOperand.mapVar id)) (methodOps getStr uses ops)
      (methodOps getStr uses ops) := by
    refine List.forall₂_same.mpr fun op _ => ?_
    conv_lhs => rw [← List.map_id op.operands]
    exact List.map_congr_left fun o _ => by cases o <;> rfl
  obtain ⟨m, -, hm⟩ := Edits.forall₂_getElem?_right (hrun _ _ _ _ hstart) hcur
  exact ⟨m, hm⟩

/-- No operation of the block reads the result of a wrapper call any more. -/
theorem wrapper_not_mem_reads {s : SsaFunction} (hclosed : s.Closed) {b : SsaBlock}
    (hb : b ∈ s.blocks) {op : SsaOp} (hop : op ∈ b.ops) {r : AsyncRewrite}
    (hr : asyncRewrite getStr b.ops op = some r) {cur : SsaOp}
    (hcur : cur ∈ rewriteOps getStr uses b.ops) : r.src ∉ cur.reads := by
  obtain ⟨i, hi⟩ := List.mem_iff_getElem?.mp hcur
  obtain ⟨m, hm⟩ := rewriteOps_operands hi
  have hmem : ∀ {o : SsaOp}, o ∈ b.ops → o ∈ s.ops := fun ho =>
    SsaFunction.mem_ops.mpr ⟨b, hb, ho⟩
  intro hv
  rw [SsaOp.mem_reads, hm] at hv
  obtain ⟨o, -, heq⟩ := List.mem_map.mp hv
  obtain ⟨u, -, hu⟩ := SsaOperand.mapVar_eq_var heq
  have hsrc : r.src ∈ (((b.ops.filterMap (asyncRewrite getStr b.ops)).map
      fun r => (r.src, r.dst)).map Prod.fst) :=
    List.mem_map.mpr ⟨_, List.mem_map.mpr ⟨r, List.mem_filterMap.mpr ⟨op, hop, hr⟩, rfl⟩, rfl⟩
  rw [← hu] at hsrc
  refine replaceAll_not_mem (fun q hq hsrc => ?_) u hsrc
  -- A closure is defined by its own operation, a result by a call.
  obtain ⟨rq, hrq, rfl⟩ := List.mem_map.mp hq
  obtain ⟨opq, hopq, hrq⟩ := List.mem_filterMap.mp hrq
  obtain ⟨x, hx, hxsrc⟩ := List.mem_map.mp hsrc
  obtain ⟨rx, hrx, rfl⟩ := List.mem_map.mp hx
  obtain ⟨opx, hopx, hrx⟩ := List.mem_filterMap.mp hrx
  have hq := asyncRewrite_eq_some hrq
  have hx := asyncRewrite_eq_some hrx
  obtain ⟨c, hc, hcdst, hcname⟩ := hq.closure
  have hread : rq.dst ∈ s.reads :=
    SsaFunction.mem_reads.mpr (Or.inr ⟨opq, hmem hopq, hq.reads⟩)
  have hsame := SsaFunction.op_eq_of_count (hclosed _ hread) (hmem (List.mem_of_getElem? hc))
    (hmem hopx) hcdst (hx.dst.trans (congrArg some hxsrc))
  rw [hsame] at hcname
  rcases hx.name with hname | hname | hname <;> rw [hname] at hcname <;>
    exact absurd hcname (by decide)

end

end Hermes.Decompile
