-- SUMMARY: SSA closure: every variable that is read has one definition, and what the first stages of the pattern rewrite keep of it.
import DroidsawHermes.Decompile.PatternRewrite

/-!
# Closed functions

A function is closed when each variable that an operation or a phi reads has
exactly one definition. The stages before the patterns of a block keep it: they
drop operations only whose result nothing reads.
-/

namespace Hermes.Decompile

/-! ## Reads and definitions -/

/-- The variables a function reads. -/
def SsaFunction.reads (s : SsaFunction) : List VarId := s.blocks.flatMap SsaBlock.reads

/-- Every variable that is read is defined exactly once. -/
def SsaFunction.Closed (s : SsaFunction) : Prop := ∀ v ∈ s.reads, s.defs.count v = 1

theorem SsaFunction.countUses_pos {s : SsaFunction} {v : VarId} :
    0 < s.countUses v ↔ v ∈ s.reads := List.count_pos_iff

theorem SsaFunction.mem_reads {s : SsaFunction} {v : VarId} :
    v ∈ s.reads ↔ (∃ phi ∈ s.phis, v ∈ phi.args.map Prod.snd) ∨ ∃ op ∈ s.ops, v ∈ op.reads := by
  simp only [reads, SsaBlock.reads, List.mem_flatMap, List.mem_append, mem_phis, mem_ops]
  constructor
  · rintro ⟨b, hb, ⟨phi, hphi, hv⟩ | ⟨op, hop, hv⟩⟩
    · exact Or.inl ⟨phi, ⟨b, hb, hphi⟩, hv⟩
    · exact Or.inr ⟨op, ⟨b, hb, hop⟩, hv⟩
  · rintro (⟨phi, ⟨b, hb, hphi⟩, hv⟩ | ⟨op, ⟨b, hb, hop⟩, hv⟩)
    · exact ⟨b, hb, Or.inl ⟨phi, hphi, hv⟩⟩
    · exact ⟨b, hb, Or.inr ⟨op, hop, hv⟩⟩

theorem SsaFunction.Closed.mono {s s' : SsaFunction} (h : s.Closed)
    (hreads : ∀ v ∈ s'.reads, v ∈ s.reads)
    (hdefs : ∀ v ∈ s'.reads, s'.defs.count v = s.defs.count v) : s'.Closed :=
  fun v hv => (hdefs v hv).trans (h v (hreads v hv))

/-- Definitions are counted block by block. -/
theorem SsaFunction.count_defs {s s' : SsaFunction} {v : VarId}
    (h : List.Forall₂ (fun b b' : SsaBlock => b'.defs.count v = b.defs.count v) s.blocks
      s'.blocks) : s'.defs.count v = s.defs.count v := by
  simp only [defs]
  generalize s.blocks = l at h
  generalize s'.blocks = l' at h
  induction h with
  | nil => rfl
  | cons hb _ ih => rw [List.flatMap_cons, List.flatMap_cons, List.count_append, List.count_append, hb, ih]

theorem SsaBlock.count_defs (b : SsaBlock) (v : VarId) :
    b.defs.count v = (b.phis.map Phi.dst).count v + (b.ops.filterMap SsaOp.dst).count v := by
  rw [defs, List.count_append]

theorem SsaFunction.mem_reads_of_block {s : SsaFunction} {b : SsaBlock} {v : VarId}
    (hb : b ∈ s.blocks) (hv : v ∈ b.reads) : v ∈ s.reads := List.mem_flatMap.mpr ⟨b, hb, hv⟩

/-- Where a variable has one definition, it has one defining operation. -/
theorem SsaFunction.op_eq_of_count {s : SsaFunction} {v : VarId} (hcount : s.defs.count v = 1)
    {op op' : SsaOp} (hop : op ∈ s.ops) (hop' : op' ∈ s.ops) (hd : op.dst = some v)
    (hd' : op'.dst = some v) : op = op' := by
  by_contra hne
  have hle : (s.ops.filterMap SsaOp.dst).count v ≤ 1 :=
    hcount ▸ s.opDefs_sublist.count_le v
  rw [List.count_filterMap] at hle
  obtain ⟨l₁, l₂, hsplit⟩ := List.append_of_mem hop
  have hmem : op' ∈ l₁ ++ l₂ := by
    rw [hsplit] at hop'
    simp only [List.mem_append, List.mem_cons] at hop' ⊢
    rcases hop' with h | rfl | h
    · exact Or.inl h
    · exact absurd rfl hne
    · exact Or.inr h
  have hrest : 0 < (l₁ ++ l₂).countP fun x => x.dst == some v :=
    List.countP_pos_iff.mpr ⟨op', hmem, by simp [hd']⟩
  rw [hsplit] at hle
  simp only [List.countP_append, List.countP_cons, hd, beq_self_eq_true, if_true] at hle hrest
  omega

/-! ## Uses by position -/

section

variable {s : SsaFunction} {v : VarId}

theorem SsaFunction.countUses_eq_sum (s : SsaFunction) (v : VarId) :
    s.countUses v = (s.blocks.map fun b => b.reads.count v).sum := List.count_flatMap

theorem SsaBlock.count_reads (b : SsaBlock) (v : VarId) : b.reads.count v =
    (b.phis.flatMap fun phi => phi.args.map Prod.snd).count v +
      (b.ops.map fun op => op.reads.count v).sum := by
  rw [reads, List.count_append]
  congr 1
  exact List.count_flatMap

theorem SsaFunction.count_block_le {b : SsaBlock} (hb : b ∈ s.blocks) :
    b.reads.count v ≤ s.countUses v := by
  rw [countUses_eq_sum]
  exact List.le_sum_of_mem (List.mem_map_of_mem hb)

theorem SsaBlock.mem_reads_of_op {b : SsaBlock} {op : SsaOp} (hop : op ∈ b.ops)
    (hv : v ∈ op.reads) : v ∈ b.reads :=
  List.mem_append_right _ (List.mem_flatMap.mpr ⟨op, hop, hv⟩)

theorem SsaBlock.mem_reads_of_phi {b : SsaBlock} {phi : Phi} (hphi : phi ∈ b.phis)
    (hv : v ∈ phi.args.map Prod.snd) : v ∈ b.reads :=
  List.mem_append_left _ (List.mem_flatMap.mpr ⟨phi, hphi, hv⟩)

theorem SsaFunction.count_op_le {b : SsaBlock} (hb : b ∈ s.blocks) {op : SsaOp} (hop : op ∈ b.ops) :
    op.reads.count v ≤ s.countUses v := by
  refine Nat.le_trans ?_ (count_block_le hb)
  rw [SsaBlock.count_reads]
  exact Nat.le_trans (List.le_sum_of_mem (List.mem_map_of_mem (f := fun op => op.reads.count v) hop))
    (Nat.le_add_left _ _)

/-- Blocks at two indices that read the variable. -/
theorem SsaFunction.two_le_of_blocks {i j : Nat} {b b' : SsaBlock} (hb : s.blocks[i]? = some b)
    (hb' : s.blocks[j]? = some b') (hne : i ≠ j) (hv : v ∈ b.reads) (hv' : v ∈ b'.reads) :
    2 ≤ s.countUses v := by
  rw [countUses_eq_sum]
  have h := Edits.add_le_sum (l := s.blocks.map fun b => b.reads.count v) (i := i) (j := j)
    (a := b.reads.count v) (b := b'.reads.count v) (by simp [hb]) (by simp [hb']) hne
  have h1 : 1 ≤ b.reads.count v := List.count_pos_iff.mpr hv
  have h2 : 1 ≤ b'.reads.count v := List.count_pos_iff.mpr hv'
  omega

/-- Operations at two positions that read the variable. -/
theorem SsaFunction.two_le_of_ops {i j m n : Nat} {b b' : SsaBlock} {op op' : SsaOp}
    (hb : s.blocks[i]? = some b) (hb' : s.blocks[j]? = some b') (hop : b.ops[m]? = some op)
    (hop' : b'.ops[n]? = some op') (hne : i ≠ j ∨ m ≠ n) (hv : v ∈ op.reads)
    (hv' : v ∈ op'.reads) : 2 ≤ s.countUses v := by
  by_cases hij : i = j
  · subst hij
    rw [hb, Option.some.injEq] at hb'
    subst hb'
    refine Nat.le_trans ?_ (count_block_le (List.mem_of_getElem? hb))
    have h := Edits.add_le_sum (l := b.ops.map fun op => op.reads.count v) (i := m) (j := n)
      (a := op.reads.count v) (b := op'.reads.count v) (by simp [hop]) (by simp [hop'])
      (hne.resolve_left (not_not.mpr rfl))
    have h1 : 1 ≤ op.reads.count v := List.count_pos_iff.mpr hv
    have h2 : 1 ≤ op'.reads.count v := List.count_pos_iff.mpr hv'
    rw [SsaBlock.count_reads]
    omega
  · exact two_le_of_blocks hb hb' hij (SsaBlock.mem_reads_of_op (List.mem_of_getElem? hop) hv)
      (SsaBlock.mem_reads_of_op (List.mem_of_getElem? hop') hv')

/-- A phi and an operation that read the variable. -/
theorem SsaFunction.two_le_of_phi {phi : Phi} {op : SsaOp} (hphi : phi ∈ s.phis) (hop : op ∈ s.ops)
    (hv : v ∈ phi.args.map Prod.snd) (hv' : v ∈ op.reads) : 2 ≤ s.countUses v := by
  obtain ⟨b, hb, hphi⟩ := mem_phis.mp hphi
  obtain ⟨b', hb', hop⟩ := mem_ops.mp hop
  obtain ⟨i, hi⟩ := List.mem_iff_getElem?.mp hb
  obtain ⟨j, hj⟩ := List.mem_iff_getElem?.mp hb'
  by_cases hij : i = j
  · subst hij
    rw [hi, Option.some.injEq] at hj
    subst hj
    refine Nat.le_trans ?_ (count_block_le hb)
    rw [SsaBlock.count_reads]
    have h1 : 1 ≤ (b.phis.flatMap fun phi => phi.args.map Prod.snd).count v :=
      List.count_pos_iff.mpr (List.mem_flatMap.mpr ⟨phi, hphi, hv⟩)
    have h2 : 1 ≤ op.reads.count v := List.count_pos_iff.mpr hv'
    have h3 := List.le_sum_of_mem (List.mem_map_of_mem (f := fun op => op.reads.count v) hop)
    omega
  · exact two_le_of_blocks hi hj hij (SsaBlock.mem_reads_of_phi hphi hv)
      (SsaBlock.mem_reads_of_op hop hv')

end

/-! ## Operations rewritten in place -/

theorem SsaFunction.ops_mapOps (s : SsaFunction) (f : SsaOp → SsaOp) :
    (s.mapOps f).ops = s.ops.map f := by
  simp [ops, mapOps, SsaBlock.mapOps, List.flatMap_map, List.map_flatMap]

theorem SsaFunction.phis_mapOps (s : SsaFunction) (f : SsaOp → SsaOp) :
    (s.mapOps f).phis = s.phis := by
  simp [phis, mapOps, SsaBlock.mapOps, List.flatMap_map]

theorem SsaFunction.count_defs_mapOps {s : SsaFunction} {f : SsaOp → SsaOp}
    (h : ∀ op ∈ s.ops, (f op).dst = op.dst) (v : VarId) :
    (s.mapOps f).defs.count v = s.defs.count v := by
  apply SsaFunction.count_defs
  apply Edits.forall₂_map_self
  intro b hb
  rw [SsaBlock.count_defs, SsaBlock.count_defs]
  have hdsts : (b.ops.map f).filterMap SsaOp.dst = b.ops.filterMap SsaOp.dst := by
    rw [List.filterMap_map]
    exact List.filterMap_congr fun op hop => h op (mem_ops.mpr ⟨b, hb, hop⟩)
  simp only [SsaBlock.mapOps, hdsts]

theorem SsaFunction.mem_reads_mapOps {s : SsaFunction} {f : SsaOp → SsaOp} {v : VarId}
    (h : ∀ op ∈ s.ops, v ∈ (f op).reads → v ∈ op.reads) (hv : v ∈ (s.mapOps f).reads) :
    v ∈ s.reads := by
  rw [mem_reads, phis_mapOps, ops_mapOps] at hv
  rw [mem_reads]
  rcases hv with hphi | ⟨op', hop', hv⟩
  · exact Or.inl hphi
  · obtain ⟨op, hop, rfl⟩ := List.mem_map.mp hop'
    exact Or.inr ⟨op, hop, h op hop hv⟩

theorem SsaFunction.Closed.mapOps {s : SsaFunction} {f : SsaOp → SsaOp} (hclosed : s.Closed)
    (hdst : ∀ op ∈ s.ops, (f op).dst = op.dst)
    (hreads : ∀ op ∈ s.ops, ∀ v ∈ (f op).reads, v ∈ op.reads) : (s.mapOps f).Closed :=
  hclosed.mono (fun _ hv => mem_reads_mapOps (fun op hop => hreads op hop _) hv)
    fun v _ => count_defs_mapOps hdst v

/-! ## Strings and property names -/

theorem resolveString_eq_var {strings : VarId → Option String} {o : SsaOperand} {v : VarId}
    (h : resolveString strings o = .var v) : o = .var v := by
  cases o with
  | var u =>
    cases hu : strings u with
    | none => simpa [resolveString, hu] using h
    | some str => simp [resolveString, hu] at h
  | _ => simp [resolveString] at h

theorem resolveName_eq_var {getStr : Nat → String} {o : SsaOperand} {v : VarId}
    (h : resolveName getStr o = .var v) : o = .var v := by
  cases o with
  | const n =>
    simp only [resolveName] at h
    split at h <;> cases h
  | _ => exact h

theorem SsaOp.mem_reads_mapOperands {op : SsaOp} {σ : SsaOperand → SsaOperand} {v : VarId}
    (hσ : ∀ o, σ o = .var v → o = .var v) (h : v ∈ (op.mapOperands σ).reads) : v ∈ op.reads := by
  rw [mem_reads] at h ⊢
  obtain ⟨o, ho, heq⟩ := List.mem_map.mp h
  exact hσ o heq ▸ ho

theorem mem_of_mem_modify {α : Type} {l : List α} {i : Nat} {f : α → α} {x : α}
    (h : x ∈ l.modify i f) : x ∈ l ∨ ∃ y ∈ l, x = f y := by
  obtain ⟨j, hj⟩ := List.mem_iff_getElem?.mp h
  rw [List.getElem?_modify] at hj
  cases hy : l[j]? with
  | none => simp [hy] at hj
  | some y =>
    have hmem := List.mem_of_getElem? hy
    simp only [hy, Option.map_eq_map, Option.map_some, Option.some.injEq] at hj
    split at hj
    · exact Or.inr ⟨y, hmem, hj.symm⟩
    · exact Or.inl (hj ▸ hmem)

theorem propagateStrings_closed {getStr : Nat → String} {s : SsaFunction} (h : s.Closed) :
    (propagateStrings getStr s).Closed := by
  apply h.mapOps
  · intro op _
    split <;> rfl
  · intro op _ v hv
    split at hv
    · exact hv
    · exact SsaOp.mem_reads_mapOperands (fun _ => resolveString_eq_var) hv

theorem SsaOp.reads_resolveProperty {getStr : Nat → String} {op : SsaOp} {v : VarId}
    (hv : v ∈ (op.resolveProperty getStr).reads) : v ∈ op.reads := by
  have hmodify : ∀ (operands : List SsaOperand) (i : Nat) (v : VarId),
      .var v ∈ operands.modify i (resolveName getStr) → .var v ∈ operands := by
    intro operands i v hv
    rcases mem_of_mem_modify hv with hmem | ⟨o, ho, heq⟩
    · exact hmem
    · exact resolveName_eq_var heq.symm ▸ ho
  rw [mem_reads] at hv ⊢
  simp only [resolveProperty] at hv
  split_ifs at hv
  · exact hmodify _ _ v hv
  · exact hmodify _ _ v hv
  · exact hv

theorem SsaOp.resolveProperty_kept {getStr : Nat → String} (op : SsaOp) :
    op.Kept (op.resolveProperty getStr) := by
  rw [resolveProperty]
  split_ifs <;> exact ⟨rfl, rfl, Or.inl rfl⟩

theorem resolveProperties_closed {getStr : Nat → String} {s : SsaFunction} (h : s.Closed) :
    (resolveProperties getStr s).Closed :=
  h.mapOps (fun op _ => op.resolveProperty_kept.dst) fun _ _ _ => SsaOp.reads_resolveProperty

/-! ## Operations dropped -/

theorem SsaBlock.reads_of_ops_subset {b b' : SsaBlock} (hphis : b'.phis = b.phis)
    (hops : ∀ op ∈ b'.ops, op ∈ b.ops) {v : VarId} (hv : v ∈ b'.reads) : v ∈ b.reads := by
  simp only [SsaBlock.reads, List.mem_append, List.mem_flatMap, hphis] at hv ⊢
  rcases hv with hv | ⟨op, hop, hv⟩
  · exact Or.inl hv
  · exact Or.inr ⟨op, hops op hop, hv⟩

/-- Blocks that lose operations whose results the rest does not read. -/
theorem SsaFunction.Closed.drop {s s' : SsaFunction} (hclosed : s.Closed)
    (h : List.Forall₂ (fun b b' : SsaBlock => b'.phis = b.phis ∧ (∀ op ∈ b'.ops, op ∈ b.ops) ∧
      ∀ v ∈ s.reads, (b'.ops.filterMap SsaOp.dst).count v = (b.ops.filterMap SsaOp.dst).count v)
      s.blocks s'.blocks) : s'.Closed := by
  have hreads : ∀ v ∈ s'.reads, v ∈ s.reads := by
    intro v hv
    obtain ⟨b', hb', hv⟩ := List.mem_flatMap.mp hv
    obtain ⟨i, hi⟩ := List.mem_iff_getElem?.mp hb'
    obtain ⟨b, hb, hphis, hops, -⟩ := Edits.forall₂_getElem?_right h hi
    exact mem_reads_of_block (List.mem_of_getElem? hb) (SsaBlock.reads_of_ops_subset hphis hops hv)
  refine hclosed.mono hreads fun v hv => SsaFunction.count_defs (h.imp fun b b' hb => ?_)
  rw [SsaBlock.count_defs, SsaBlock.count_defs, hb.1, hb.2.2 v (hreads v hv)]

theorem SsaOp.reads_foldTemplate {templates : VarId → Option Chunks} {op : SsaOp} {v : VarId}
    (hv : v ∈ (op.foldTemplate templates).reads) : v ∈ op.reads := by
  rw [mem_reads] at hv ⊢
  simp only [foldTemplate] at hv
  split at hv
  · next arg0 u chunks _ =>
    simp only [List.mem_append, List.mem_cons, List.not_mem_nil, or_false] at hv
    rcases hv with ((hv | hv | hv) | hv) | hv
    · cases hv
    · cases hcallee : op.operands[1]? with
      | none => simp [hcallee] at hv
      | some o =>
        rw [hcallee, Option.getD_some] at hv
        exact hv ▸ List.mem_of_getElem? hcallee
    · cases hv
    · simp [Chunks.operands] at hv
    · exact List.mem_of_mem_drop hv
  · exact hv

theorem SsaFunction.defSite_eq_some {α : Type} {s : SsaFunction} {entry : SsaOp → Option α}
    {v : VarId} {bi oi : Nat} (h : s.defSite entry v = some (bi, oi)) :
    ∃ b op, s.blocks[bi]? = some b ∧ b.ops[oi]? = some op ∧ op.dst = some v ∧
      (entry op).isSome := by
  obtain ⟨⟨op, site⟩, hmem, hsite⟩ := List.exists_of_findSome?_eq_some h
  rw [List.mem_reverse, List.mem_flatMap] at hmem
  obtain ⟨⟨b, i⟩, hb, hop⟩ := hmem
  obtain ⟨⟨op', j⟩, hop', heq⟩ := List.mem_map.mp hop
  cases heq
  dsimp only at hsite
  split at hsite
  · next hentry =>
    cases hsite
    exact ⟨b, op, List.mem_zipIdx_iff_getElem?.mp hb, List.mem_zipIdx_iff_getElem?.mp hop',
      hentry⟩
  · cases hsite

theorem rewriteTaggedTemplates_closed {s : SsaFunction} (h : s.Closed) :
    (rewriteTaggedTemplates s).Closed := by
  have hdst : ∀ op : SsaOp, (op.foldTemplate (lastDef s.ops SsaOp.chunks)).dst = op.dst := by
    intro op
    simp only [SsaOp.foldTemplate]
    split <;> rfl
  have hfolded := h.mapOps (f := SsaOp.foldTemplate (lastDef s.ops SsaOp.chunks))
    (fun op _ => hdst op) fun op _ v hv => SsaOp.reads_foldTemplate hv
  refine hfolded.drop (Edits.forall₂_zipIdx_map fun bi b hb => ⟨rfl, ?_, ?_⟩)
  · exact fun op hop => (Edits.removeAll_sublist _ _).subset hop
  · intro v hv
    apply Edits.count_filterMap_removeAll
    intro oi hoi op hop heq
    obtain ⟨⟨arg0, u, chunks⟩, -, hsite⟩ := List.mem_filterMap.mp hoi
    dsimp only at hsite
    split at hsite
    · cases hsite
    · next hunread =>
      obtain ⟨site, hdef, hsite⟩ := Option.bind_eq_some_iff.mp hsite
      split at hsite
      · next hbi =>
        cases hsite
        -- The dropped operation defines `u`, which nothing reads.
        obtain ⟨b₀, op₀, hb₀, hop₀, hu, -⟩ :=
          @SsaFunction.defSite_eq_some _ _ _ _ site.1 site.2 hdef
        simp only [SsaFunction.mapOps, List.getElem?_map, ← hbi, hb₀, Option.map_some,
          Option.some.injEq] at hb
        subst hb
        simp only [SsaBlock.mapOps, List.getElem?_map, hop₀, Option.map_some,
          Option.some.injEq] at hop
        subst hop
        rw [hdst, hu, Option.some.injEq] at heq
        subst heq
        exact hunread (SsaFunction.countUses_pos.mpr hv)
      · cases hsite

theorem elideInitRegexNamedGroups_closed {s : SsaFunction} (h : s.Closed) :
    (elideInitRegexNamedGroups s).Closed := by
  refine h.drop (Edits.forall₂_map_self fun b _ => ⟨rfl, fun op hop => ?_, fun v hv => ?_⟩)
  · exact List.mem_of_mem_filter hop
  · rw [List.count_filterMap, List.count_filterMap, List.countP_filter]
    apply List.countP_congr
    intro op _
    cases hdst : op.dst with
    | none => simp
    | some d =>
      have huse := SsaFunction.countUses_pos.mpr hv
      simp only [Option.some_beq_some, beq_iff_eq, Bool.and_eq_true, Bool.or_eq_true,
        Bool.not_eq_true', decide_eq_true_eq]
      constructor
      · exact And.left
      · rintro rfl
        exact ⟨rfl, Or.inr huse⟩

theorem prepare_closed {getStr : Nat → String} {s : SsaFunction} (h : s.Closed) :
    (prepare getStr s).Closed :=
  elideInitRegexNamedGroups_closed (rewriteTaggedTemplates_closed
    (resolveProperties_closed (propagateStrings_closed h)))

end Hermes.Decompile
