-- SUMMARY: When the pattern rewrite keeps a function closed: no result of a dropped operation is read, and nothing is defined twice.
import DroidsawHermes.Decompile.PatternImages

/-!
# Closure under the patterns

The patterns drop allocations, property reads and wrapper calls. The results of
property reads lose their only reader; what reads an allocation or the result of a
wrapper call decides whether the function stays closed.
-/

namespace Hermes.Decompile

/-! ## The condition -/

/-- Only the `SelectObject`s that are folded into the construct `f` of block `i` read the
allocation `ct`. -/
structure OnlySelected (s : SsaFunction) (i : Nat) (b : SsaBlock) (f : ConstructFold)
    (ct : VarId) : Prop where
  phis : ∀ phi ∈ s.phis, ct ∉ phi.args.map Prod.snd
  readers : ∀ op ∈ s.ops, ct ∈ op.reads →
    op.name = "SelectObject" ∧ op.dst.isSome ∧ f.constructDst.isSome
  once : ∀ b' ∈ s.blocks, b'.ops.countP (fun op => op.reads.contains ct) ≤ 1
  here : selectIndex b.ops ct (f.constructIdx + 1) ≠ none →
    ∀ (j : Nat) (b' : SsaBlock), s.blocks[j]? = some b' → j ≠ i → ∀ op ∈ b'.ops, ct ∉ op.reads

/-- Nothing that stays reads a result that goes. -/
structure PatternsFit (getStr : Nat → String) (s : SsaFunction) : Prop where
  allocations : ∀ (i : Nat) (b : SsaBlock), s.blocks[i]? = some b → ∀ f ∈ constructFolds b.ops,
    ∀ ct, f.createDst = some ct → OnlySelected s i b f ct
  selects : ∀ b ∈ s.blocks, ∀ f ∈ constructFolds b.ops, ∀ ct con, f.createDst = some ct →
    f.constructDst = some con → ∀ op ∈ s.ops, op.selects ct = true → ∀ sel, op.dst = some sel →
    s.defs.count con = 1 ∧ ∀ phi ∈ s.phis, phi.dst ≠ sel
  wrappers : ∀ (i : Nat) (b : SsaBlock), s.blocks[i]? = some b → ∀ op ∈ b.ops, ∀ r,
    asyncRewrite getStr b.ops op = some r →
    (∀ phi ∈ s.phis, r.src ∉ phi.args.map Prod.snd) ∧
      ∀ (j : Nat) (b' : SsaBlock), s.blocks[j]? = some b' → j ≠ i →
        ∀ op' ∈ b'.ops, r.src ∉ op'.reads

section

variable {getStr : Nat → String} {s : SsaFunction}

/-! ## Ends of edges -/

theorem SsaFunction.mem_ops_of_getElem? {b : SsaBlock} (hb : b ∈ s.blocks) {i : Nat} {op : SsaOp}
    (hop : b.ops[i]? = some op) : op ∈ s.ops :=
  mem_ops.mpr ⟨b, hb, List.mem_of_getElem? hop⟩

/-- A variable that takes the place of another is defined once, by a construct or a
closure. -/
theorem edge_target (hclosed : s.Closed) (hfit : PatternsFit getStr s) {u v : VarId}
    (h : Edge getStr s u v) : s.defs.count v = 1 ∧ ∃ op ∈ s.ops, op.dst = some v ∧
      (op.isConstruct = true ∨ isGeneratorClosure op.name = true) := by
  rcases h with ⟨b, hb, f, hf, ct, hct, hcon, op, hop, hselects, hsel⟩ |
    ⟨b, hb, op, hop, r, hr, rfl, rfl⟩
  · obtain ⟨c, hc, hconstruct, hdst⟩ := (foldAt_of_mem hf).construct
    exact ⟨(hfit.selects b hb f hf ct v hct hcon op hop hselects u hsel).1, c,
      SsaFunction.mem_ops_of_getElem? hb hc, hdst.trans hcon, Or.inl hconstruct⟩
  · have hat := asyncRewrite_eq_some hr
    obtain ⟨c, hc, hdst, hname⟩ := hat.closure
    refine ⟨hclosed _ ?_, c, SsaFunction.mem_ops_of_getElem? hb hc, hdst, Or.inr hname⟩
    exact SsaFunction.mem_reads.mpr (Or.inr ⟨op, SsaFunction.mem_ops.mpr ⟨b, hb, hop⟩, hat.reads⟩)

/-- What another operation defines takes no variable's place. -/
theorem not_edge_of_op (hclosed : s.Closed) (hfit : PatternsFit getStr s) {op : SsaOp} {v : VarId}
    (hop : op ∈ s.ops) (hdst : op.dst = some v) (hconstruct : op.isConstruct = false)
    (hclosure : isGeneratorClosure op.name = false) (u : VarId) : ¬ Edge getStr s u v := by
  intro hedge
  obtain ⟨hcount, op', hop', hdst', hname⟩ := edge_target hclosed hfit hedge
  rw [SsaFunction.op_eq_of_count hcount hop hop' hdst hdst'] at hconstruct hclosure
  rcases hname with hname | hname
  · rw [hname] at hconstruct
    cases hconstruct
  · rw [hname] at hclosure
    cases hclosure

theorem SsaOp.selects_iff {op : SsaOp} {v : VarId} :
    op.selects v = true ↔ op.name = "SelectObject" ∧ v ∈ op.reads := by
  simp [selects, SsaOp.mem_reads]

theorem not_edge_of_select (hclosed : s.Closed) (hfit : PatternsFit getStr s) {sel con : VarId}
    (h : SelectEdge s sel con) (u : VarId) : ¬ Edge getStr s u sel := by
  obtain ⟨b, hb, f, hf, ct, hct, hcon, op, hop, hselects, hdst⟩ := h
  have hname := (SsaOp.selects_iff.mp hselects).1
  exact not_edge_of_op hclosed hfit hop hdst (by simp [SsaOp.isConstruct, hname])
    (by rw [hname]; decide) u

/-! ## Operations that come from operations of the function -/

/-- An operation after some of the rewrites, and the one it was before them. -/
structure Comes (getStr : Nat → String) (s : SsaFunction) (op op' : SsaOp) : Prop where
  dst : op'.dst = op.dst
  name : op'.name = "SelectObject" ↔ op.name = "SelectObject"
  reads : ∀ v ∈ op'.reads, ∃ u, Relation.ReflTransGen (Edge getStr s) u v ∧
    (u ∈ op.reads ∨ ∃ read ∈ s.ops, read.isGetById = true ∧ u ∈ read.reads)

theorem Traced.comes {b : SsaBlock} (hb : b ∈ s.blocks) {uses : VarId → Nat}
    {op folded cur : SsaOp} (h : Traced getStr s b.ops uses op folded cur) :
    Comes getStr s op cur where
  dst := h.dst
  name := by
    have hfold : folded.name = "SelectObject" ↔ op.name = "SelectObject" := by
      rcases h.fold.name with heq | ⟨hname, hname'⟩
      · rw [heq]
      · rw [hname']
        rcases hname with hname | hname <;> rw [hname] <;> decide
    have hmethod : (folded.toMethodCall getStr b.ops uses).name = "SelectObject" ↔
        folded.name = "SelectObject" := by
      rcases toMethodCall_cases getStr b.ops uses folded with heq | ⟨idx, hm⟩
      · rw [heq]
      · obtain ⟨first, obj, callee, args, read, hat⟩ := methodCall_eq_some hm
        obtain ⟨property, heq⟩ := hat.method
        have hshort := hat.short
        rw [heq]
        refine iff_of_false (by simp) fun hname => ?_
        rw [hname] at hshort
        exact absurd hshort (by decide)
    rw [← hfold, ← hmethod]
    rcases h.unwrap.name with heq | ⟨hname, hname'⟩
    · rw [heq]
    · rw [hname']
      refine iff_of_false (by simp) fun heq => ?_
      rw [heq] at hname
      exact absurd hname (by decide)
  reads := by
    intro v hv
    obtain ⟨u, huv, hu | ⟨read, hread, hname, hu⟩⟩ := h.mem_reads hv
    · exact ⟨u, huv, Or.inl hu⟩
    · exact ⟨u, huv, Or.inr ⟨read, SsaFunction.mem_ops.mpr ⟨b, hb, hread⟩, hname, hu⟩⟩

theorem SsaOp.mem_reads_replaceVar {op : SsaOp} {src dst v : VarId}
    (h : v ∈ (op.replaceVar src dst).reads) : ∃ u ∈ op.reads, Decompile.replaceVar src dst u = v := by
  rw [mem_reads] at h
  obtain ⟨o, ho, heq⟩ := List.mem_map.mp h
  obtain ⟨u, rfl, rfl⟩ := SsaOperand.mapVar_eq_var heq
  exact ⟨u, SsaOp.mem_reads.mpr ho, rfl⟩

theorem Comes.replaceVar {op op' : SsaOp} (h : Comes getStr s op op') {src dst : VarId}
    (hedge : Edge getStr s src dst) : Comes getStr s op (op'.replaceVar src dst) where
  dst := h.dst
  name := h.name
  reads := by
    intro v hv
    obtain ⟨w, hw, rfl⟩ := SsaOp.mem_reads_replaceVar hv
    obtain ⟨u, huw, hu⟩ := h.reads w hw
    exact ⟨u, huw.trans (Redirects.replaceVar hedge w), hu⟩

theorem mem_ops_rewriteBlocks {op' : SsaOp} (h : op' ∈ (rewriteBlocks getStr s).ops) :
    ∃ (i : Nat) (b : SsaBlock) (j : Nat) (op folded : SsaOp), s.blocks[i]? = some b ∧ b.ops[j]? = some op ∧
      (foldConstructs b.ops)[j]? = some folded ∧ j ∉ removeIndices getStr s.countUses b.ops ∧
      (rewriteOps getStr s.countUses b.ops)[j]? = some op' ∧
      Traced getStr s b.ops s.countUses op folded op' := by
  obtain ⟨b', hb', hop'⟩ := SsaFunction.mem_ops.mp h
  obtain ⟨b, hb, rfl⟩ := List.mem_map.mp hb'
  obtain ⟨i, hi⟩ := List.mem_iff_getElem?.mp hb
  obtain ⟨j, hj, hkept⟩ := Edits.mem_removeAll.mp hop'
  obtain ⟨op, folded, hop, hfolded, htraced⟩ := rewriteOps_traced hb hj
  exact ⟨i, b, j, op, folded, hi, hop, hfolded, hkept, hj, htraced⟩

theorem comes_of_rewriteBlocks {op' : SsaOp} (h : op' ∈ (rewriteBlocks getStr s).ops) :
    ∃ op ∈ s.ops, Comes getStr s op op' := by
  obtain ⟨i, b, j, op, folded, hb, hop, -, -, -, htraced⟩ := mem_ops_rewriteBlocks h
  have hmem := List.mem_of_getElem? hb
  exact ⟨op, SsaFunction.mem_ops_of_getElem? hmem hop, htraced.comes hmem⟩

/-! ## Deferred rewrites -/

/-- No operation reads the variable. -/
def SsaFunction.Unread (s : SsaFunction) (v : VarId) : Prop := ∀ op ∈ s.ops, v ∉ op.reads

/-- In each block at most one operation reads the variable. -/
def SsaFunction.ReadOnce (s : SsaFunction) (v : VarId) : Prop :=
  ∀ b ∈ s.blocks, b.ops.countP (fun op => op.reads.contains v) ≤ 1

theorem removeSelect_cases (ct con : VarId) (b : SsaBlock) :
    removeSelect ct con b = (b, []) ∨ ∃ i op sel, selectIndex b.ops ct 0 = some i ∧
      b.ops[i]? = some op ∧ op.selects ct = true ∧ op.dst = some sel ∧
      removeSelect ct con b =
        ({ b with ops := (Edits.removeAll [i] b.ops).map (SsaOp.replaceVar sel con) },
          [(sel, con)]) := by
  simp only [removeSelect]
  split
  · next i hi =>
    obtain ⟨-, op, hop, hselects⟩ := selectIndex_eq_some hi
    rw [hop, Option.bind_some]
    cases hdst : op.dst with
    | none => exact Or.inl rfl
    | some sel => exact Or.inr ⟨i, op, sel, hi, hop, hselects, hdst, rfl⟩
  · exact Or.inl rfl

/-- The state of the deferred removals: its operations come from the function, it has the
same phis, and only the results it is to replace have lost their definition. -/
structure Deferred (getStr : Nat → String) (s : SsaFunction)
    (st : SsaFunction × List (VarId × VarId)) : Prop where
  ops : ∀ op' ∈ st.1.ops, ∃ op ∈ s.ops, Comes getStr s op op'
  phis : st.1.phis = s.phis
  defs : ∀ v, v ∉ st.2.map Prod.fst → st.1.defs.count v = (rewriteBlocks getStr s).defs.count v
  edges : ∀ r ∈ st.2, SelectEdge s r.1 r.2

/-- The pair is the allocation and the result of a construct. -/
def SsaFunction.Folds (s : SsaFunction) (ct con : VarId) : Prop :=
  ∃ b ∈ s.blocks, ∃ f ∈ constructFolds b.ops, f.createDst = some ct ∧ f.constructDst = some con

theorem not_edge_of_create (hclosed : s.Closed) (hfit : PatternsFit getStr s) {b : SsaBlock}
    (hb : b ∈ s.blocks) {f : ConstructFold} (hf : f ∈ constructFolds b.ops) {ct : VarId}
    (hct : f.createDst = some ct) (u : VarId) : ¬ Edge getStr s u ct := by
  obtain ⟨op, hop, hdst, hname⟩ := (foldAt_of_mem hf).create
  refine not_edge_of_op hclosed hfit (SsaFunction.mem_ops_of_getElem? hb hop) (hdst.trans hct)
    ?_ ?_ u
  · rcases hname with hname | hname | hname <;> simp [SsaOp.isConstruct, hname]
  · rcases hname with hname | hname | hname <;> rw [hname] <;> decide

/-- What reads an allocation at some point was a `SelectObject` that read it. -/
theorem comes_reader (hclosed : s.Closed) (hfit : PatternsFit getStr s) {b : SsaBlock}
    (hb : b ∈ s.blocks) {f : ConstructFold} (hf : f ∈ constructFolds b.ops) {ct : VarId}
    (hct : f.createDst = some ct) {op op' : SsaOp} (hop : op ∈ s.ops)
    (hcomes : Comes getStr s op op') (hread : ct ∈ op'.reads) :
    ct ∈ op.reads ∧ op'.selects ct = true ∧ op'.dst.isSome ∧ f.constructDst.isSome := by
  obtain ⟨i, hi⟩ := List.mem_iff_getElem?.mp hb
  have honly := hfit.allocations i b hi f hf ct hct
  obtain ⟨u, hmoved, hu⟩ := hcomes.reads ct hread
  obtain rfl := eq_of_moved hmoved (not_edge_of_create hclosed hfit hb hf hct)
  rcases hu with hu | ⟨read, hread', hname, hu⟩
  · obtain ⟨hname, hdst, hcon⟩ := honly.readers op hop hu
    refine ⟨hu, SsaOp.selects_iff.mpr ⟨hcomes.name.mpr hname, hread⟩, ?_, hcon⟩
    rwa [hcomes.dst]
  · obtain ⟨hselect, -, -⟩ := honly.readers read hread' hu
    simp only [SsaOp.isGetById, hselect] at hname
    exact absurd hname (by decide)

theorem Deferred.removeSelects (hclosed : s.Closed) (hfit : PatternsFit getStr s)
    {st : SsaFunction × List (VarId × VarId)} (h : Deferred getStr s st) {ct con : VarId}
    (hfolds : s.Folds ct con) : Deferred getStr s (removeSelects st (ct, con)) := by
  obtain ⟨b₀, hb₀, f, hf, hct, hcon⟩ := hfolds
  have hedge : ∀ b ∈ st.1.blocks, ∀ op ∈ b.ops, op.selects ct = true → ∀ sel, op.dst = some sel →
      SelectEdge s sel con := by
    intro b hb op' hop' hselects sel hsel
    obtain ⟨op, hop, hcomes⟩ := h.ops op' (SsaFunction.mem_ops.mpr ⟨b, hb, hop'⟩)
    obtain ⟨hname, hread⟩ := SsaOp.selects_iff.mp hselects
    obtain ⟨hread', -, -, -⟩ := comes_reader hclosed hfit hb₀ hf hct hop hcomes hread
    exact ⟨b₀, hb₀, f, hf, ct, hct, hcon, op, hop,
      SsaOp.selects_iff.mpr ⟨hcomes.name.mp hname, hread'⟩, hcomes.dst ▸ hsel⟩
  refine ⟨?_, ?_, ?_, ?_⟩
  · intro op' hop'
    obtain ⟨b', hb', hop'⟩ := SsaFunction.mem_ops.mp hop'
    obtain ⟨r, hr, rfl⟩ := List.mem_map.mp hb'
    obtain ⟨b, hb, rfl⟩ := List.mem_map.mp hr
    rcases removeSelect_cases ct con b with heq | ⟨i, op, sel, hi, hop, hselects, hsel, heq⟩
    · rw [heq] at hop'
      exact h.ops op' (SsaFunction.mem_ops.mpr ⟨b, hb, hop'⟩)
    · rw [heq] at hop'
      obtain ⟨cur, hcur, rfl⟩ := List.mem_map.mp hop'
      have hmem := (Edits.removeAll_sublist [i] b.ops).subset hcur
      obtain ⟨op₀, hop₀, hcomes⟩ := h.ops cur (SsaFunction.mem_ops.mpr ⟨b, hb, hmem⟩)
      refine ⟨op₀, hop₀, hcomes.replaceVar (Or.inl ?_)⟩
      exact hedge b hb op (List.mem_of_getElem? hop) hselects sel hsel
  · rw [← h.phis]
    simp only [SsaFunction.phis, Decompile.removeSelects, List.map_map, List.flatMap_map]
    apply List.flatMap_congr
    intro b _
    rcases removeSelect_cases ct con b with heq | ⟨i, op, sel, -, -, -, -, heq⟩ <;>
      simp only [Function.comp_apply, heq]
  · intro v hv
    simp only [Decompile.removeSelects, List.map_append, List.mem_append, not_or] at hv
    rw [← h.defs v hv.1]
    apply SsaFunction.count_defs
    simp only [Decompile.removeSelects, List.map_map]
    apply Edits.forall₂_map_self
    intro b hb
    rcases removeSelect_cases ct con b with heq | ⟨i, op, sel, hi, hop, hselects, hsel, heq⟩
    · simp only [Function.comp_apply, heq]
    · rw [SsaBlock.count_defs, SsaBlock.count_defs]
      have hdsts : ((Edits.removeAll [i] b.ops).map (SsaOp.replaceVar sel con)).filterMap
          SsaOp.dst = (Edits.removeAll [i] b.ops).filterMap SsaOp.dst := by
        rw [List.filterMap_map]
        rfl
      have hkept : ((Edits.removeAll [i] b.ops).filterMap SsaOp.dst).count v =
          (b.ops.filterMap SsaOp.dst).count v := by
        apply Edits.count_filterMap_removeAll
        intro j hj x hx hdst
        rw [List.mem_singleton.mp hj, hop, Option.some.injEq] at hx
        subst hx
        rw [hsel, Option.some.injEq] at hdst
        subst hdst
        apply hv.2
        refine List.mem_map.mpr ⟨(sel, con), List.mem_flatMap.mpr ⟨_, List.mem_map_of_mem hb, ?_⟩, rfl⟩
        rw [heq]
        exact List.mem_singleton_self _
      simp only [Function.comp_apply, heq, hdsts, hkept]
  · intro r hr
    simp only [Decompile.removeSelects, List.mem_append, List.mem_flatMap] at hr
    rcases hr with hr | ⟨x, hx, hr⟩
    · exact h.edges r hr
    · obtain ⟨b, hb, rfl⟩ := List.mem_map.mp hx
      rcases removeSelect_cases ct con b with heq | ⟨i, op, sel, hi, hop, hselects, hsel, heq⟩
      · rw [heq] at hr
        cases hr
      · rw [heq] at hr
        rw [List.mem_singleton.mp hr]
        exact hedge b hb op (List.mem_of_getElem? hop) hselects sel hsel

/-! ## Unread variables -/

/-- The operations of a block after a removal read no variable anew, but for the result
of the construct. -/
theorem mem_reads_removeSelect {ct con v : VarId} {b : SsaBlock}
    (hv : ∀ r ∈ (removeSelect ct con b).2, v ≠ r.2) :
    ∃ l : List SsaOp, l.Sublist b.ops ∧ List.Forall₂ (fun op op' : SsaOp =>
      v ∈ op'.reads → v ∈ op.reads) l (removeSelect ct con b).1.ops := by
  rcases removeSelect_cases ct con b with heq | ⟨i, op, sel, -, -, -, -, heq⟩
  · rw [heq]
    exact ⟨b.ops, List.Sublist.refl _, List.forall₂_same.mpr fun _ _ h => h⟩
  · rw [heq] at hv ⊢
    have hne : v ≠ con := hv (sel, con) (List.mem_singleton_self _)
    refine ⟨_, Edits.removeAll_sublist [i] b.ops, Edits.forall₂_map_self fun op _ hread => ?_⟩
    obtain ⟨u, hu, huv⟩ := SsaOp.mem_reads_replaceVar hread
    simp only [replaceVar] at huv
    split at huv
    · exact absurd huv.symm hne
    · exact huv ▸ hu

section

variable {st : SsaFunction × List (VarId × VarId)} {p : VarId × VarId} {v : VarId}

theorem ne_of_removeSelects (hv : ∀ r ∈ (removeSelects st p).2, v ≠ r.2) {b : SsaBlock}
    (hb : b ∈ st.1.blocks) : ∀ r ∈ (removeSelect p.1 p.2 b).2, v ≠ r.2 := fun r hr =>
  hv r (List.mem_append_right _ (List.mem_flatMap.mpr ⟨_, List.mem_map_of_mem hb, hr⟩))

theorem SsaFunction.Unread.removeSelects (h : st.1.Unread v)
    (hv : ∀ r ∈ (Decompile.removeSelects st p).2, v ≠ r.2) :
    (Decompile.removeSelects st p).1.Unread v := by
  intro op' hop' hread
  obtain ⟨b', hb', hop'⟩ := SsaFunction.mem_ops.mp hop'
  obtain ⟨r, hr, rfl⟩ := List.mem_map.mp hb'
  obtain ⟨b, hb, rfl⟩ := List.mem_map.mp hr
  obtain ⟨l, hsub, hl⟩ := mem_reads_removeSelect (ne_of_removeSelects hv hb)
  obtain ⟨j, hj⟩ := List.mem_iff_getElem?.mp hop'
  obtain ⟨op, hop, hstep⟩ := Edits.forall₂_getElem?_right hl hj
  exact h op (SsaFunction.mem_ops.mpr ⟨b, hb, hsub.subset (List.mem_of_getElem? hop)⟩)
    (hstep hread)

theorem SsaFunction.ReadOnce.removeSelects (h : st.1.ReadOnce v)
    (hv : ∀ r ∈ (Decompile.removeSelects st p).2, v ≠ r.2) :
    (Decompile.removeSelects st p).1.ReadOnce v := by
  intro b' hb'
  obtain ⟨r, hr, rfl⟩ := List.mem_map.mp hb'
  obtain ⟨b, hb, rfl⟩ := List.mem_map.mp hr
  obtain ⟨l, hsub, hl⟩ := mem_reads_removeSelect (ne_of_removeSelects hv hb)
  refine Nat.le_trans (Edits.forall₂_countP_le hl fun op op' hstep hread => ?_)
    (Nat.le_trans hsub.countP_le (h b hb))
  simp only [List.contains_eq_mem, decide_eq_true_eq] at hread ⊢
  exact hstep hread

end

/-- The removal for an allocation takes away what reads it. -/
theorem unread_removeSelects (hclosed : s.Closed) (hfit : PatternsFit getStr s)
    {st : SsaFunction × List (VarId × VarId)} (h : Deferred getStr s st) {b₀ : SsaBlock}
    (hb₀ : b₀ ∈ s.blocks) {f : ConstructFold} (hf : f ∈ constructFolds b₀.ops) {ct con : VarId}
    (hct : f.createDst = some ct) (hv : ∀ r ∈ (removeSelects st (ct, con)).2, ct ≠ r.2)
    (honce : st.1.ReadOnce ct) :
    (removeSelects st (ct, con)).1.Unread ct := by
  intro op' hop' hread
  obtain ⟨b', hb', hop'⟩ := SsaFunction.mem_ops.mp hop'
  obtain ⟨r, hr, rfl⟩ := List.mem_map.mp hb'
  obtain ⟨b, hb, rfl⟩ := List.mem_map.mp hr
  have hselect : ∀ op ∈ b.ops, ct ∈ op.reads → op.selects ct = true ∧ op.dst.isSome := by
    intro op hop hread
    obtain ⟨op₀, hop₀, hcomes⟩ := h.ops op (SsaFunction.mem_ops.mpr ⟨b, hb, hop⟩)
    obtain ⟨-, hselects, hdst, -⟩ := comes_reader hclosed hfit hb₀ hf hct hop₀ hcomes hread
    exact ⟨hselects, hdst⟩
  -- A reader that is left was there before, and it is the one that is removed.
  cases hi : selectIndex b.ops ct 0 with
  | none =>
    have heq : removeSelect ct con b = (b, []) := by simp [removeSelect, hi]
    rw [heq] at hop'
    obtain ⟨j, hj⟩ := List.mem_iff_getElem?.mp hop'
    have hnot := List.find?_eq_none.mp hi j (List.mem_range.mpr (List.getElem?_eq_some_iff.mp hj).1)
    simp only [Nat.zero_le, decide_true, Bool.true_and, hj, Option.any_some] at hnot
    exact hnot (hselect op' hop' hread).1
  | some i =>
    obtain ⟨-, op, hop, hselects⟩ := selectIndex_eq_some hi
    have hopread := (SsaOp.selects_iff.mp hselects).2
    obtain ⟨sel, hsel⟩ := Option.isSome_iff_exists.mp
      (hselect op (List.mem_of_getElem? hop) hopread).2
    have heq : removeSelect ct con b =
        ({ b with ops := (Edits.removeAll [i] b.ops).map (SsaOp.replaceVar sel con) },
          [(sel, con)]) := by
      simp [removeSelect, hi, hop, hsel]
    have hne : ct ≠ con := by
      apply ne_of_removeSelects hv hb (sel, con)
      rw [heq]
      exact List.mem_singleton_self _
    rw [heq] at hop'
    obtain ⟨cur, hcur, rfl⟩ := List.mem_map.mp hop'
    obtain ⟨u, hu, huv⟩ := SsaOp.mem_reads_replaceVar hread
    have hsame : ct ∈ cur.reads := by
      simp only [replaceVar] at huv
      split at huv
      · exact absurd huv.symm hne
      · exact huv ▸ hu
    obtain ⟨j, hj, hkept⟩ := Edits.mem_removeAll.mp hcur
    have hindex := Edits.index_unique (honce b hb) hj hop (by simpa using hsame)
      (by simpa using hopread)
    exact hkept (List.mem_singleton.mpr hindex)

/-- The state after all pending removals. -/
def deferred (getStr : Nat → String) (s : SsaFunction) : SsaFunction × List (VarId × VarId) :=
  s.pendingRemovals.foldl removeSelects (rewriteBlocks getStr s, s.crossBlockRewrites)

theorem folds_of_pending {p : VarId × VarId} (h : p ∈ s.pendingRemovals) : s.Folds p.1 p.2 := by
  obtain ⟨b, hb, hp⟩ := List.mem_flatMap.mp h
  obtain ⟨f, hf, hp⟩ := List.mem_filterMap.mp hp
  obtain ⟨ct, hct, hp⟩ := Option.bind_eq_some_iff.mp hp
  obtain ⟨con, hcon, hp⟩ := Option.bind_eq_some_iff.mp hp
  split at hp
  · cases hp
    exact ⟨b, hb, f, hf, hct, hcon⟩
  · cases hp

theorem rewriteBlocks_deferred :
    Deferred getStr s (rewriteBlocks getStr s, s.crossBlockRewrites) where
  ops := fun _ hop => comes_of_rewriteBlocks hop
  phis := by simp [SsaFunction.phis, rewriteBlocks, rewriteBlock, List.flatMap_map]
  defs := fun _ _ => rfl
  edges := by
    intro r hr
    obtain ⟨b, hb, hr⟩ := List.mem_flatMap.mp hr
    obtain ⟨f, hf, hr⟩ := List.mem_filterMap.mp hr
    obtain ⟨⟨k, sel, con⟩, hselect, rfl⟩ := Option.map_eq_some_iff.mp hr
    exact selectEdge_of_select hb hf hselect

theorem deferred_deferred (hclosed : s.Closed) (hfit : PatternsFit getStr s) :
    Deferred getStr s (deferred getStr s) := by
  have hrun : ∀ (ps : List (VarId × VarId)) (st : SsaFunction × List (VarId × VarId)),
      (∀ p ∈ ps, p ∈ s.pendingRemovals) → Deferred getStr s st →
      Deferred getStr s (ps.foldl removeSelects st) := by
    intro ps
    induction ps with
    | nil => exact fun _ _ h => h
    | cons p ps ih =>
      intro st hps h
      refine ih _ (fun q hq => hps q (List.mem_cons_of_mem p hq)) ?_
      exact h.removeSelects hclosed hfit (folds_of_pending (hps p List.mem_cons_self))
  exact hrun _ _ (fun p hp => hp) rewriteBlocks_deferred

theorem ne_of_edge {st : SsaFunction × List (VarId × VarId)} (h : Deferred getStr s st) {v : VarId}
    (hv : ∀ u, ¬ Edge getStr s u v) : ∀ r ∈ st.2, v ≠ r.2 := fun r hr heq =>
  hv r.1 (Or.inl (heq ▸ h.edges r hr))

/-- What is unread after the patterns of the blocks stays so. -/
theorem unread_deferred (hclosed : s.Closed) (hfit : PatternsFit getStr s) {v : VarId}
    (hv : ∀ u, ¬ Edge getStr s u v) (h : (rewriteBlocks getStr s).Unread v) :
    (deferred getStr s).1.Unread v := by
  have hrun : ∀ (ps : List (VarId × VarId)) (st : SsaFunction × List (VarId × VarId)),
      (∀ p ∈ ps, p ∈ s.pendingRemovals) → Deferred getStr s st → st.1.Unread v →
      (ps.foldl removeSelects st).1.Unread v := by
    intro ps
    induction ps with
    | nil => exact fun _ _ _ h => h
    | cons p ps ih =>
      intro st hps hst hunread
      have hnext := hst.removeSelects hclosed hfit (folds_of_pending (hps p List.mem_cons_self))
      exact ih _ (fun q hq => hps q (List.mem_cons_of_mem p hq)) hnext
        (hunread.removeSelects (ne_of_edge hnext hv))
  exact hrun _ _ (fun p hp => hp) rewriteBlocks_deferred h

/-- An allocation whose removal is pending is unread in the end. -/
theorem unread_deferred_of_pending (hclosed : s.Closed) (hfit : PatternsFit getStr s)
    {b : SsaBlock} (hb : b ∈ s.blocks) {f : ConstructFold} (hf : f ∈ constructFolds b.ops)
    {ct con : VarId} (hct : f.createDst = some ct) (hpending : (ct, con) ∈ s.pendingRemovals)
    (honce : (rewriteBlocks getStr s).ReadOnce ct) : (deferred getStr s).1.Unread ct := by
  have hv := not_edge_of_create hclosed hfit hb hf hct
  have hrun : ∀ (ps : List (VarId × VarId)) (st : SsaFunction × List (VarId × VarId)),
      (∀ p ∈ ps, p ∈ s.pendingRemovals) → Deferred getStr s st →
      st.1.Unread ct ∨ st.1.ReadOnce ct ∧ (ct, con) ∈ ps →
      (ps.foldl removeSelects st).1.Unread ct := by
    intro ps
    induction ps with
    | nil =>
      rintro st - - (h | ⟨-, h⟩)
      · exact h
      · cases h
    | cons p ps ih =>
      intro st hps hst h
      have hnext := hst.removeSelects hclosed hfit (folds_of_pending (hps p List.mem_cons_self))
      refine ih _ (fun q hq => hps q (List.mem_cons_of_mem p hq)) hnext ?_
      rcases h with h | ⟨h, hmem⟩
      · exact Or.inl (h.removeSelects (ne_of_edge hnext hv))
      · rcases List.mem_cons.mp hmem with rfl | hmem
        · exact Or.inl (unread_removeSelects hclosed hfit hst hb hf hct (ne_of_edge hnext hv) h)
        · exact Or.inr ⟨h.removeSelects (ne_of_edge hnext hv), hmem⟩
  exact hrun _ _ (fun p hp => hp) rewriteBlocks_deferred (Or.inr ⟨honce, hpending⟩)

/-! ## Results that go are unread -/

/-- What reads an allocation in a rewritten block is at the place of a `SelectObject`. -/
theorem traced_reader (hclosed : s.Closed) (hfit : PatternsFit getStr s) {b₀ : SsaBlock}
    (hb₀ : b₀ ∈ s.blocks) {f : ConstructFold} (hf : f ∈ constructFolds b₀.ops) {ct : VarId}
    (hct : f.createDst = some ct) {b : SsaBlock} (hb : b ∈ s.blocks) {op folded cur : SsaOp}
    (hop : op ∈ b.ops) {uses : VarId → Nat} (h : Traced getStr s b.ops uses op folded cur)
    (hread : ct ∈ cur.reads) : ct ∈ op.reads :=
  (comes_reader hclosed hfit hb₀ hf hct (SsaFunction.mem_ops.mpr ⟨b, hb, hop⟩) (h.comes hb) hread).1

theorem readOnce_rewriteBlocks (hclosed : s.Closed) (hfit : PatternsFit getStr s) {i : Nat}
    {b : SsaBlock} (hb : s.blocks[i]? = some b) {f : ConstructFold} (hf : f ∈ constructFolds b.ops)
    {ct : VarId} (hct : f.createDst = some ct) : (rewriteBlocks getStr s).ReadOnce ct := by
  intro b' hb'
  obtain ⟨b₁, hb₁, rfl⟩ := List.mem_map.mp hb'
  have hsteps : List.Forall₂ (fun op cur : SsaOp => ct ∈ cur.reads → ct ∈ op.reads) b₁.ops
      (rewriteOps getStr s.countUses b₁.ops) := by
    refine List.forall₂_iff_get.mpr ⟨(rewriteOps_forall₂ hb₁).length_eq, fun k hk hk' hread => ?_⟩
    obtain ⟨op, folded, hop, -, htraced⟩ := rewriteOps_traced hb₁ (List.getElem?_eq_getElem hk')
    obtain ⟨hlt, rfl⟩ := List.getElem?_eq_some_iff.mp hop
    exact traced_reader hclosed hfit (List.mem_of_getElem? hb) hf hct hb₁ (List.getElem_mem _)
      htraced hread
  refine Nat.le_trans (Edits.countP_removeAll_le _ _ _) (Nat.le_trans
    (Edits.forall₂_countP_le hsteps fun op cur hstep hread => ?_)
    ((hfit.allocations i b hb f hf ct hct).once b₁ hb₁))
  simp only [List.contains_eq_mem, decide_eq_true_eq] at hread ⊢
  exact hstep hread

/-- No operation reads an allocation after the deferred removals. -/
theorem create_unread (hclosed : s.Closed) (hfit : PatternsFit getStr s) {i : Nat} {b : SsaBlock}
    (hb : s.blocks[i]? = some b) {f : ConstructFold} (hf : f ∈ constructFolds b.ops) {ct : VarId}
    (hct : f.createDst = some ct) : (deferred getStr s).1.Unread ct := by
  have hmem := List.mem_of_getElem? hb
  have honly := hfit.allocations i b hb f hf ct hct
  have hv := not_edge_of_create hclosed hfit hmem hf hct
  by_cases hpending : ∃ con, (ct, con) ∈ s.pendingRemovals
  · obtain ⟨con, hpending⟩ := hpending
    exact unread_deferred_of_pending hclosed hfit hmem hf hct hpending
      (readOnce_rewriteBlocks hclosed hfit hb hf hct)
  · apply unread_deferred hclosed hfit hv
    intro op' hop' hread
    obtain ⟨j, b', n, op, folded, hb', hop, -, hkept, hcur, htraced⟩ := mem_ops_rewriteBlocks hop'
    have hmem' := List.mem_of_getElem? hb'
    have hread' := traced_reader hclosed hfit hmem hf hct hmem' (List.mem_of_getElem? hop) htraced
      hread
    obtain ⟨-, -, hcon⟩ := honly.readers op (SsaFunction.mem_ops_of_getElem? hmem' hop) hread'
    obtain ⟨con, hcon⟩ := Option.isSome_iff_exists.mp hcon
    -- The construct has a result and nothing is pending, so its block selects.
    cases hk : selectIndex b.ops ct (f.constructIdx + 1) with
    | none =>
      apply hpending
      refine ⟨con, List.mem_flatMap.mpr ⟨b, hmem, List.mem_filterMap.mpr ⟨f, hf, ?_⟩⟩⟩
      simp [ConstructFold.pending, hct, hcon, hk]
    | some k =>
      obtain ⟨-, select, hselect, hselects⟩ := selectIndex_eq_some hk
      have hselread := (SsaOp.selects_iff.mp hselects).2
      obtain ⟨-, hdst, -⟩ := honly.readers select (SsaFunction.mem_ops_of_getElem? hmem hselect)
        hselread
      obtain ⟨sel, hsel⟩ := Option.isSome_iff_exists.mp hdst
      have hfold : f.select b.ops = some (k, sel, con) := by
        simp [ConstructFold.select, hct, hcon, hk, hselect, hsel]
      by_cases hij : j = i
      · subst hij
        rw [hb, Option.some.injEq] at hb'
        subst hb'
        have hsame := Edits.index_unique (honly.once b hmem) hop hselect (by simpa using hread')
          (by simpa using hselread)
        apply hkept
        rw [hsame, removeIndices, List.append_assoc]
        refine List.mem_append_left _ (List.mem_flatMap.mpr ⟨f, hf, ?_⟩)
        simp [ConstructFold.removals, hfold]
      · exact honly.here (by simp [hk]) j b' hb' hij op (List.mem_of_getElem? hop) hread'

theorem not_edge_of_wrapper (hclosed : s.Closed) (hfit : PatternsFit getStr s) {b : SsaBlock}
    (hb : b ∈ s.blocks) {op : SsaOp} (hop : op ∈ b.ops) {r : AsyncRewrite}
    (hr : asyncRewrite getStr b.ops op = some r) (u : VarId) : ¬ Edge getStr s u r.src := by
  have hat := asyncRewrite_eq_some hr
  refine not_edge_of_op hclosed hfit (SsaFunction.mem_ops.mpr ⟨b, hb, hop⟩) hat.dst ?_ ?_ u
  · rcases hat.name with hname | hname | hname <;> simp [SsaOp.isConstruct, hname]
  · rcases hat.name with hname | hname | hname <;> rw [hname] <;> decide

/-- No operation reads the result of a wrapper call after the patterns of the blocks. -/
theorem wrapper_unread (hclosed : s.Closed) (hfit : PatternsFit getStr s) {i : Nat} {b : SsaBlock}
    (hb : s.blocks[i]? = some b) {op : SsaOp} (hop : op ∈ b.ops) {r : AsyncRewrite}
    (hr : asyncRewrite getStr b.ops op = some r) : (rewriteBlocks getStr s).Unread r.src := by
  have hmem := List.mem_of_getElem? hb
  intro op' hop' hread
  obtain ⟨j, b', n, o, folded, hb', ho, -, -, hcur, htraced⟩ := mem_ops_rewriteBlocks hop'
  by_cases hij : j = i
  · subst hij
    rw [hb, Option.some.injEq] at hb'
    subst hb'
    exact wrapper_not_mem_reads hclosed hmem hop hr (List.mem_of_getElem? hcur) hread
  · have hother := (hfit.wrappers i b hb op hop r hr).2 j b' hb' hij
    obtain ⟨u, hmoved, hu⟩ := htraced.mem_reads hread
    obtain rfl := eq_of_moved hmoved (not_edge_of_wrapper hclosed hfit hmem hop hr)
    rcases hu with hu | ⟨get, hget, -, hu⟩
    · exact hother o (List.mem_of_getElem? ho) hu
    · exact hother get hget hu

theorem not_isGetById_of_isGeneratorClosure {op : SsaOp} (h : isGeneratorClosure op.name = true) :
    op.isGetById = false := by
  by_contra hget
  rw [isGeneratorClosure, startsWith, List.isPrefixOf_iff_prefix] at h
  obtain ⟨rest, hrest⟩ := h
  simp only [SsaOp.isGetById, startsWith, ← hrest] at hget
  simp at hget

theorem not_edge_of_getById (hclosed : s.Closed) (hfit : PatternsFit getStr s) {op : SsaOp}
    {v : VarId} (hop : op ∈ s.ops) (hdst : op.dst = some v) (hname : op.isGetById = true)
    (u : VarId) : ¬ Edge getStr s u v := by
  refine not_edge_of_op hclosed hfit hop hdst ?_ ?_ u
  · by_contra hne
    simp only [SsaOp.isConstruct, Bool.not_eq_false, Bool.or_eq_true, decide_eq_true_eq] at hne
    rcases hne with hne | hne <;> rw [SsaOp.isGetById, hne] at hname <;>
      exact absurd hname (by decide)
  · by_contra hne
    rw [Bool.not_eq_false] at hne
    rw [not_isGetById_of_isGeneratorClosure hne] at hname
    cases hname

/-- The only reader of a property that becomes part of a method call is the call. -/
theorem get_unread (hclosed : s.Closed) (hfit : PatternsFit getStr s) {i : Nat} {b : SsaBlock}
    (hb : s.blocks[i]? = some b) {folded m : SsaOp} (hfolded : folded ∈ foldConstructs b.ops)
    {k : Nat} (hm : methodCall getStr b.ops s.countUses folded = some (m, k)) {get : SsaOp}
    (hget : b.ops[k]? = some get) {v : VarId} (hv : get.dst = some v) :
    (∀ phi ∈ s.phis, v ∉ phi.args.map Prod.snd) ∧ (rewriteBlocks getStr s).Unread v ∧
      ∀ u, ¬ Edge getStr s u v := by
  have hmem := List.mem_of_getElem? hb
  obtain ⟨first, obj, callee, args, read, hat⟩ := methodCall_eq_some hm
  have hread := hat.read_mem
  rw [hget, Option.some.injEq] at hread
  subst hread
  have hcallee := hat.read_dst
  rw [hv, Option.some.injEq] at hcallee
  subst hcallee
  have hnot := not_edge_of_getById hclosed hfit (SsaFunction.mem_ops_of_getElem? hmem hget) hv
    hat.read_name
  -- The call, and its one read of the property.
  obtain ⟨n, hn⟩ := List.mem_iff_getElem?.mp hfolded
  obtain ⟨op, hop, himage⟩ := Edits.forall₂_getElem?_right
    (@foldConstructs_images getStr s b hmem) hn
  have hfoldedRead : v ∈ folded.reads := by
    rw [SsaOp.mem_reads, hat.operands]
    simp
  have hopRead : v ∈ op.reads := by
    obtain ⟨u, hu, hmoved⟩ := himage.mem_reads hfoldedRead
    exact eq_of_moved hmoved hnot ▸ hu
  have honce := hat.once
  have hle : folded.reads.count v ≤ 1 :=
    Nat.le_trans (himage.count_reads_le hnot) (Nat.le_trans
      (SsaFunction.count_op_le hmem (List.mem_of_getElem? hop)) (Nat.le_of_eq honce))
  have hopName : op.isGetById = false := by
    have hshort := hat.short
    by_contra hne
    rw [Bool.not_eq_false] at hne
    rcases himage.name with hname | ⟨-, hname⟩
    · rw [hname] at hshort
      simp only [isShortCall, Bool.or_eq_true, decide_eq_true_eq] at hshort
      rcases hshort with ((hname | hname) | hname) | hname <;> rw [SsaOp.isGetById, hname] at hne <;>
        exact absurd hne (by decide)
    · rw [hname] at hshort
      exact absurd hshort (by decide)
  have honly : ∀ (j q : Nat) (b' : SsaBlock) (o : SsaOp), s.blocks[j]? = some b' →
      b'.ops[q]? = some o → v ∈ o.reads → j = i ∧ q = n := by
    intro j q b' o hb' ho hvo
    by_contra hne
    have htwo := SsaFunction.two_le_of_ops hb' hb ho hop (by tauto) hvo hopRead
    omega
  refine ⟨fun phi hphi hvphi => ?_, fun op' hop' hread => ?_, hnot⟩
  · have htwo := SsaFunction.two_le_of_phi hphi (SsaFunction.mem_ops_of_getElem? hmem hop) hvphi
      hopRead
    omega
  · obtain ⟨j, b', q, o, folded', hb', ho, hfolded', hkept, hcur, htraced⟩ :=
      mem_ops_rewriteBlocks hop'
    have hposition : j = i ∧ q = n := by
      obtain ⟨u, hmoved, hu⟩ := htraced.mem_reads hread
      obtain rfl := eq_of_moved hmoved hnot
      rcases hu with hu | ⟨get', hget', hname, hu⟩
      · exact honly j q b' o hb' ho hu
      · obtain ⟨p, hp⟩ := List.mem_iff_getElem?.mp hget'
        obtain ⟨rfl, rfl⟩ := honly j p b' get' hb' hp hu
        rw [hb, Option.some.injEq] at hb'
        subst hb'
        rw [hop, Option.some.injEq] at hp
        subst hp
        rw [hopName] at hname
        cases hname
    obtain ⟨rfl, rfl⟩ := hposition
    rw [hb, Option.some.injEq] at hb'
    subst hb'
    rw [hn, Option.some.injEq] at hfolded'
    subst hfolded'
    -- The method call has the property in no operand.
    obtain ⟨u, hu, hmoved⟩ := htraced.unwrap.mem_reads hread
    obtain rfl := eq_of_moved hmoved hnot
    have hmethod : folded.toMethodCall getStr b.ops s.countUses = m := by
      simp [SsaOp.toMethodCall, hm]
    obtain ⟨property, heq⟩ := hat.method
    rw [hmethod, heq, SsaOp.mem_reads] at hu
    rw [SsaOp.reads, hat.operands, List.count_filterMap] at hle
    have hcallee : ((SsaOperand.var u).var? == some u) = true := by simp [SsaOperand.var?]
    rw [List.countP_cons, List.countP_cons, if_pos hcallee] at hle
    simp only [List.mem_append, List.mem_cons, List.not_mem_nil, or_false] at hu
    rcases hu with (hfirst | hobj | hproperty) | hargs
    · rw [← hfirst, if_pos hcallee] at hle
      omega
    · obtain ⟨-, rfl⟩ := honly j k b get hb hget
        (SsaOp.mem_reads.mpr (hobj ▸ List.mem_of_getElem? hat.read_obj))
      rw [hop, Option.some.injEq] at hget
      subst hget
      rw [hat.read_name] at hopName
      cases hopName
    · cases hproperty
    · have hpos : 0 < args.countP fun o => o.var? == some u :=
        List.countP_pos_iff.mpr ⟨_, List.mem_of_mem_drop hargs, hcallee⟩
      omega

/-! ## Rewrites in all blocks -/

/-- Every variable replaced, the results of phis included. -/
def SsaFunction.mapVars (σ : VarId → VarId) (s : SsaFunction) : SsaFunction :=
  ⟨s.blocks.map fun b =>
    { b with
      ops := b.ops.map (SsaOp.mapOperands (SsaOperand.mapVar σ))
      phis := b.phis.map fun phi => ⟨σ phi.dst, phi.args.map fun arg => (arg.1, σ arg.2)⟩ }⟩

theorem SsaFunction.mapVars_mapVars (σ τ : VarId → VarId) (s : SsaFunction) :
    (s.mapVars σ).mapVars τ = s.mapVars (τ ∘ σ) := by
  have hops : (SsaOp.mapOperands (SsaOperand.mapVar τ)) ∘ (SsaOp.mapOperands (SsaOperand.mapVar σ)) =
      SsaOp.mapOperands (SsaOperand.mapVar (τ ∘ σ)) := by
    funext op
    simp only [Function.comp_apply, SsaOp.mapOperands, List.map_map, SsaOp.mk.injEq, true_and,
      and_true]
    exact List.map_congr_left fun o _ => SsaOperand.mapVar_comp σ τ o
  simp [mapVars, hops, Function.comp_def]

theorem SsaFunction.mapVars_id (s : SsaFunction) : s.mapVars (fun v => v) = s := by
  have hops : SsaOp.mapOperands (SsaOperand.mapVar fun v => v) = fun op => op := by
    funext op
    have hid : op.operands.map (SsaOperand.mapVar fun v => v) = op.operands.map id :=
      List.map_congr_left fun o _ => by cases o <;> rfl
    rw [SsaOp.mapOperands, hid, List.map_id]
  simp [mapVars, hops]

theorem foldl_replaceVar (rs : List (VarId × VarId)) (s : SsaFunction) :
    rs.foldl SsaFunction.replaceVar s = s.mapVars (replaceAll rs) := by
  have hrun : ∀ (rs : List (VarId × VarId)) (σ : VarId → VarId),
      rs.foldl SsaFunction.replaceVar (s.mapVars σ) = s.mapVars (replaceAll rs ∘ σ) := by
    intro rs
    induction rs with
    | nil => exact fun _ => rfl
    | cons r rs ih =>
      intro σ
      have hstep : (s.mapVars σ).replaceVar r = s.mapVars (replaceVar r.1 r.2 ∘ σ) :=
        s.mapVars_mapVars σ (replaceVar r.1 r.2)
      rw [List.foldl_cons, hstep, ih]
      rfl
  have h := hrun rs fun v => v
  rwa [s.mapVars_id] at h

theorem SsaFunction.mem_reads_mapVars {σ : VarId → VarId} {v : VarId}
    (h : v ∈ (s.mapVars σ).reads) : ∃ u ∈ s.reads, σ u = v := by
  obtain ⟨b', hb', hv⟩ := List.mem_flatMap.mp h
  obtain ⟨b, hb, rfl⟩ := List.mem_map.mp hb'
  simp only [SsaBlock.reads, List.flatMap_map, List.map_map, List.mem_append, List.mem_flatMap,
    List.mem_map, Function.comp_apply] at hv
  rcases hv with ⟨phi, hphi, arg, harg, rfl⟩ | ⟨op, hop, hv⟩
  · exact ⟨arg.2, mem_reads_of_block hb (SsaBlock.mem_reads_of_phi hphi (List.mem_map_of_mem harg)),
      rfl⟩
  · rw [SsaOp.mem_reads] at hv
    obtain ⟨o, ho, heq⟩ := List.mem_map.mp hv
    obtain ⟨u, rfl, hu⟩ := SsaOperand.mapVar_eq_var heq
    exact ⟨u, mem_reads_of_block hb (SsaBlock.mem_reads_of_op hop (SsaOp.mem_reads.mpr ho)), hu⟩

theorem SsaFunction.count_defs_mapVars {σ : VarId → VarId} (h : ∀ phi ∈ s.phis, σ phi.dst = phi.dst)
    (v : VarId) : (s.mapVars σ).defs.count v = s.defs.count v := by
  apply SsaFunction.count_defs
  apply Edits.forall₂_map_self
  intro b hb
  have hphis : (b.phis.map fun phi => σ phi.dst) = b.phis.map Phi.dst :=
    List.map_congr_left fun phi hphi => h phi (mem_phis.mpr ⟨b, hb, hphi⟩)
  have hops : (b.ops.map (SsaOp.mapOperands (SsaOperand.mapVar σ))).filterMap SsaOp.dst =
      b.ops.filterMap SsaOp.dst := by
    rw [List.filterMap_map]
    rfl
  rw [SsaBlock.count_defs, SsaBlock.count_defs, hops, List.map_map]
  exact congrArg (fun l => List.count v l + _) hphis

theorem replaceAll_eq_self {rs : List (VarId × VarId)} {v : VarId} (h : v ∉ rs.map Prod.fst) :
    replaceAll rs v = v := by
  induction rs with
  | nil => rfl
  | cons r rs ih =>
    rw [List.map_cons, List.mem_cons, not_or] at h
    rw [replaceAll, List.foldl_cons]
    simp only [replaceVar, if_neg h.1]
    exact ih h.2

theorem moves_replaceAll {E : VarId → VarId → Prop} {rs : List (VarId × VarId)}
    (h : ∀ r ∈ rs, E r.1 r.2) : Redirects E (replaceAll rs) := by
  induction rs with
  | nil => exact Redirects.id E
  | cons r rs ih =>
    exact (Redirects.replaceVar (h r List.mem_cons_self)).comp
      (ih fun q hq => h q (List.mem_cons_of_mem r hq))

theorem subset_foldl_removeSelects (ps : List (VarId × VarId))
    (st : SsaFunction × List (VarId × VarId)) : st.2 ⊆ (ps.foldl removeSelects st).2 := by
  induction ps generalizing st with
  | nil => exact List.Subset.refl _
  | cons p ps ih => exact fun r hr => ih _ (List.mem_append_left _ hr)

theorem crossBlock_subset_deferred {r : VarId × VarId} (h : r ∈ s.crossBlockRewrites) :
    r ∈ (deferred getStr s).2 := subset_foldl_removeSelects _ _ h

/-! ## The rewritten function -/

/-- A variable that no dropped operation defines keeps its definitions. -/
theorem count_defs_rewriteBlocks {v : VarId}
    (h : ∀ (i : Nat) (b : SsaBlock), s.blocks[i]? = some b → ∀ (k : Nat) (op : SsaOp),
      b.ops[k]? = some op → Dropped getStr b.ops s.countUses k op → op.dst ≠ some v) :
    (rewriteBlocks getStr s).defs.count v = s.defs.count v := by
  apply SsaFunction.count_defs
  apply Edits.forall₂_map_self
  intro b hb
  obtain ⟨i, hi⟩ := List.mem_iff_getElem?.mp hb
  have hdst : List.Forall₂ (fun op cur : SsaOp => cur.dst = op.dst) b.ops
      (rewriteOps getStr s.countUses b.ops) :=
    (@rewriteOps_forall₂ getStr s.countUses s b hb).imp fun _ _ ⟨_, hstep⟩ => hstep.dst
  have hdsts : (rewriteOps getStr s.countUses b.ops).filterMap SsaOp.dst =
      b.ops.filterMap SsaOp.dst := by
    generalize rewriteOps getStr s.countUses b.ops = cur at hdst
    generalize b.ops = ops at hdst
    induction hdst with
    | nil => rfl
    | cons hstep _ ih => rw [List.filterMap_cons, List.filterMap_cons, hstep, ih]
  rw [SsaBlock.count_defs, SsaBlock.count_defs, ← hdsts]
  congr 1
  apply Edits.count_filterMap_removeAll
  intro k hk cur hcur hdst
  obtain ⟨op, folded, hop, -, hstep⟩ := rewriteOps_traced hb hcur
  exact h i b hi k op hop (dropped_of_mem hk hop) (hstep.dst ▸ hdst)

theorem rewritePatterns_eq : rewritePatterns getStr s =
    (deferred getStr s).1.mapVars (replaceAll (deferred getStr s).2) := foldl_replaceVar _ _

/-- The result of a phi is not replaced. -/
theorem replaceAll_phi_dst (hclosed : s.Closed) (hfit : PatternsFit getStr s) {phi : Phi}
    (hphi : phi ∈ s.phis) : replaceAll (deferred getStr s).2 phi.dst = phi.dst := by
  apply replaceAll_eq_self
  intro hmem
  obtain ⟨r, hr, heq⟩ := List.mem_map.mp hmem
  obtain ⟨b, hb, f, hf, ct, hct, hcon, op, hop, hselects, hsel⟩ :=
    (deferred_deferred hclosed hfit).edges r hr
  exact (hfit.selects b hb f hf ct r.2 hct hcon op hop hselects r.1 hsel).2 phi hphi heq.symm

theorem rewritePatterns_closed (hclosed : s.Closed) (hfit : PatternsFit getStr s) :
    (rewritePatterns getStr s).Closed := by
  have hst := deferred_deferred hclosed hfit
  rw [rewritePatterns_eq]
  intro v hv
  obtain ⟨u, hu, rfl⟩ := SsaFunction.mem_reads_mapVars hv
  have hmoved := moves_replaceAll (E := Edge getStr s) (fun r hr => Or.inl (hst.edges r hr)) u
  have hgone := @replaceAll_not_mem (deferred getStr s).2 (fun r hr hmem => by
    obtain ⟨q, hq, hqr⟩ := List.mem_map.mp hmem
    exact not_edge_of_select hclosed hfit (hst.edges q hq) r.1
      (hqr ▸ Or.inl (hst.edges r hr))) u
  generalize replaceAll (deferred getStr s).2 u = v at *
  -- A variable that takes no other's place was read all along.
  have hread : (∀ w, ¬ Edge getStr s w v) →
      (∃ phi ∈ s.phis, v ∈ phi.args.map Prod.snd) ∨ ∃ op ∈ (deferred getStr s).1.ops, v ∈ op.reads := by
    intro hnot
    rw [eq_of_moved hmoved hnot, SsaFunction.mem_reads, hst.phis] at hu
    exact hu
  have hcount : s.defs.count v = 1 := by
    by_cases htarget : ∃ w, Edge getStr s w v
    · obtain ⟨w, hw⟩ := htarget
      exact (edge_target hclosed hfit hw).1
    · push Not at htarget
      apply hclosed
      rw [SsaFunction.mem_reads]
      rcases hread htarget with hphi | ⟨op', hop', hv'⟩
      · exact Or.inl hphi
      · obtain ⟨op, hop, hcomes⟩ := hst.ops op' hop'
        obtain ⟨w, hw, hwop | ⟨get, hget, -, hwget⟩⟩ := hcomes.reads v hv'
        · exact Or.inr ⟨op, hop, eq_of_moved hw htarget ▸ hwop⟩
        · exact Or.inr ⟨get, hget, eq_of_moved hw htarget ▸ hwget⟩
  rw [SsaFunction.count_defs_mapVars, hst.defs v hgone, count_defs_rewriteBlocks, hcount]
  · intro i b hb k op hop hdropped hdst
    have hmem := List.mem_of_getElem? hb
    cases hdropped with
    | create f hf hcreate hname =>
      rw [hdst] at hcreate
      rcases hread (not_edge_of_create hclosed hfit hmem hf hcreate.symm) with
        ⟨phi, hphi, hv'⟩ | ⟨op', hop', hv'⟩
      · exact (hfit.allocations i b hb f hf v hcreate.symm).phis phi hphi hv'
      · exact create_unread hclosed hfit hb hf hcreate.symm op' hop' hv'
    | select f hf sel con hselect hsel =>
      rw [hdst, Option.some.injEq] at hsel
      subst hsel
      refine hgone (List.mem_map.mpr ⟨(v, con), crossBlock_subset_deferred ?_, rfl⟩)
      refine List.mem_flatMap.mpr ⟨b, hmem, List.mem_filterMap.mpr ⟨f, hf, ?_⟩⟩
      rw [hselect, Option.map_some]
    | read folded m hfolded hm =>
      obtain ⟨hphis, hunread, hnot⟩ := get_unread hclosed hfit hb hfolded hm hop hdst
      rcases hread hnot with ⟨phi, hphi, hv'⟩ | ⟨op', hop', hv'⟩
      · exact hphis phi hphi hv'
      · exact unread_deferred hclosed hfit hnot hunread op' hop' hv'
    | wrapper r hr =>
      have hat := (asyncRewrite_eq_some hr).dst
      rw [hdst, Option.some.injEq] at hat
      subst hat
      have hmemOp := List.mem_of_getElem? hop
      have hnot := not_edge_of_wrapper hclosed hfit hmem hmemOp hr
      rcases hread hnot with ⟨phi, hphi, hv'⟩ | ⟨op', hop', hv'⟩
      · exact (hfit.wrappers i b hb op hmemOp r hr).1 phi hphi hv'
      · exact unread_deferred hclosed hfit hnot (wrapper_unread hclosed hfit hb hmemOp hr) op' hop' hv'
  · intro phi hphi
    rw [hst.phis] at hphi
    exact replaceAll_phi_dst hclosed hfit hphi

end

/-- The pattern rewrite keeps a function closed when nothing that stays reads the result of
an allocation or of a wrapper call that goes. -/
theorem patternRewrite_closed (getStr : Nat → String) (s : SsaFunction) (hclosed : s.Closed)
    (hfit : PatternsFit getStr (prepare getStr s)) : (patternRewrite getStr s).Closed :=
  rewritePatterns_closed (prepare_closed hclosed) hfit

/-- `GetGlobalObject r0; CreateThis r1, r0, r0; copy; Construct r3, r0, 1;
SelectObject r4, r1, r3; Ret r4`. -/
def allocateAndConstruct (copies : List SsaOp) : SsaFunction :=
  ⟨[
    { id := 0
      phis := []
      ops := [
        ⟨"GetGlobalObject", some ⟨0, 0⟩, [.dstPlaceholder], ⟨0, 2, "GetGlobalObject", [.reg 0]⟩⟩,
        ⟨"CreateThis", some ⟨1, 0⟩, [.dstPlaceholder, .var ⟨0, 0⟩, .var ⟨0, 0⟩],
          ⟨2, 4, "CreateThis", [.reg 1, .reg 0, .reg 0]⟩⟩] ++ copies ++ [
        ⟨"Construct", some ⟨3, 0⟩, [.dstPlaceholder, .var ⟨0, 0⟩, .const 1],
          ⟨9, 4, "Construct", [.reg 3, .reg 0, .uint 1]⟩⟩,
        ⟨"SelectObject", some ⟨4, 0⟩, [.dstPlaceholder, .var ⟨1, 0⟩, .var ⟨3, 0⟩],
          ⟨13, 4, "SelectObject", [.reg 4, .reg 1, .reg 3]⟩⟩,
        ⟨"Ret", none, [.var ⟨4, 0⟩], ⟨17, 2, "Ret", [.reg 4]⟩⟩]
      successors := []
      predecessors := [] }]⟩

/-- `Mov r2, r1`. -/
def copyAllocation : SsaOp := ⟨"Mov", some ⟨2, 0⟩, [.dstPlaceholder, .var ⟨1, 0⟩],
  ⟨6, 3, "Mov", [.reg 2, .reg 1]⟩⟩

/-- Without a copy only the `SelectObject` reads the allocation. -/
theorem allocateAndConstruct_fits : PatternsFit (fun _ => "") (allocateAndConstruct []) where
  allocations := by
    intro i b hb f hf ct hct
    have hfold : ∀ b ∈ (allocateAndConstruct []).blocks, ∀ f ∈ constructFolds b.ops,
        f.createDst = some ⟨1, 0⟩ ∧ f.constructDst.isSome := by decide
    obtain ⟨hdst, hcon⟩ := hfold b (List.mem_of_getElem? hb) f hf
    have hct : ct = ⟨1, 0⟩ := Option.some.inj (hct.symm.trans hdst)
    subst hct
    have hreaders : ∀ op ∈ (allocateAndConstruct []).ops, (⟨1, 0⟩ : VarId) ∈ op.reads →
        op.name = "SelectObject" ∧ op.dst.isSome := by decide
    refine ⟨by decide, fun op hop hread => ?_, by decide, ?_⟩
    · exact ⟨(hreaders op hop hread).1, (hreaders op hop hread).2, hcon⟩
    · intro _ j b' hb' hne
      obtain ⟨hi, -⟩ := List.getElem?_eq_some_iff.mp hb
      obtain ⟨hj, -⟩ := List.getElem?_eq_some_iff.mp hb'
      exact absurd ((Nat.lt_one_iff.mp hj).trans (Nat.lt_one_iff.mp hi).symm) hne
  selects := by
    intro b hb f hf ct con hct hcon op hop hselects sel hsel
    have hfold : ∀ b ∈ (allocateAndConstruct []).blocks, ∀ f ∈ constructFolds b.ops,
        f.constructDst = some ⟨3, 0⟩ := by decide
    have hcon : con = ⟨3, 0⟩ := Option.some.inj (hcon.symm.trans (hfold b hb f hf))
    subst hcon
    exact ⟨by decide, fun phi hphi => absurd hphi List.not_mem_nil⟩
  wrappers := by
    intro i b hb op hop r hr
    have hnone : ∀ b ∈ (allocateAndConstruct []).blocks, ∀ op ∈ b.ops,
        asyncRewrite (fun _ => "") b.ops op = none := by decide
    rw [hnone b (List.mem_of_getElem? hb) op hop] at hr
    cases hr

theorem patternRewrite_drops_definition : ¬ ∀ (getStr : Nat → String) (s : SsaFunction), s.Closed →
    (patternRewrite getStr s).Closed := by
  intro h
  have hclosed : (allocateAndConstruct [copyAllocation]).Closed := by
    unfold SsaFunction.Closed
    decide
  have hread := h (fun _ => "") _ hclosed ⟨1, 0⟩ (by decide)
  exact absurd hread (by decide)

theorem patternRewrite_closed_without_copy :
    (patternRewrite (fun _ => "") (allocateAndConstruct [])).Closed := by
  have hprepare : prepare (fun _ => "") (allocateAndConstruct []) = allocateAndConstruct [] := by
    decide
  have hclosed : (allocateAndConstruct []).Closed := by
    unfold SsaFunction.Closed
    decide
  exact patternRewrite_closed (fun _ => "") (allocateAndConstruct []) hclosed
    (hprepare ▸ allocateAndConstruct_fits)

end Hermes.Decompile
