-- SUMMARY: What the versions that a builder hands out stand for, over every history of calls, and that `phiPerBlock` keeps it.
import DroidsawHermes.Decompile.CommonBuilder
import DroidsawHermes.Decompile.RegisterRuns

/-!
# Versions of the builder

A read returns what the block wrote last, or the version that the register has on entering the
block. That version is a phi over the predecessors, or it is the one that every predecessor
leaves. `ReadsVersions` says so of all histories of calls that end in `seal_phis`.
-/

namespace Hermes.Decompile

/-! ## Histories -/

/-- A call of the first pass, with its result. -/
inductive Call where
  | read (bid : BlockId) (reg : Nat) (v : VarId)
  | newVar (reg : Nat) (v : VarId)
  | write (bid : BlockId) (reg : Nat) (v : VarId)

def Call.apply (w : BlockId → Nat → Option VarId) : Call → BlockId → Nat → Option VarId
  | write bid reg v => fun b r => if b = bid ∧ r = reg then some v else w b r
  | _ => w

/-- The last version that each block writes of each register. -/
def written (calls : List Call) : BlockId → Nat → Option VarId :=
  calls.foldl Call.apply fun _ _ => none

def Call.newVar? : Call → Option VarId
  | newVar _ v => some v
  | _ => none

namespace CommonBuilder

variable {σ : Type} (B : CommonBuilder σ) (g : SsaCfg)

/-- The states of the first pass, with the calls that led there. -/
inductive History : List Call → σ → Prop
  | new : History [] B.new
  | read {calls s bid reg v s'} : History calls s → bid ∈ g.nodes →
      B.readVariable g s bid reg = .ok (v, s') → History (calls ++ [.read bid reg v]) s'
  | newVar {calls s reg v s'} : History calls s → B.newVar s reg = .ok (v, s') →
      History (calls ++ [.newVar reg v]) s'
  | write {calls s bid reg v} : History calls s → bid ∈ g.nodes → Call.newVar reg v ∈ calls →
      History (calls ++ [.write bid reg v]) (B.writeVariable s bid reg v)

end CommonBuilder

/-- `versions` has the version that each register has on entering each block. -/
structure EntryVersions (g : SsaCfg) (calls : List Call) (phis : BlockId → List Phi)
    (versions : BlockId → Nat → Option VarId) : Prop where
  own : ∀ b, OwnVersions (versions b)
  read : ∀ before after b r v, calls = before ++ .read b r v :: after →
    (written before b r).or (versions b r) = some v
  phi : ∀ b, ∀ phi ∈ phis b, versions b phi.dst.reg = some phi.dst
  arg : ∀ b, ∀ phi ∈ phis b, ∀ p v, (p, v) ∈ phi.args → p ∈ Renaming.allPredecessors g b ∧
    (written calls p phi.dst.reg).or (versions p phi.dst.reg) = some v
  covered : ∀ b, ∀ phi ∈ phis b, ∀ p ∈ Renaming.allPredecessors g b, p ∈ phi.args.map Prod.fst
  through : ∀ b r v p, versions b r = some v → v ∉ (phis b).map Phi.dst →
    p ∈ Renaming.allPredecessors g b → (written calls p r).or (versions p r) = some v
  /-- What the registers have before the first block is nothing that is defined. -/
  start : Renaming.allPredecessors g g.entry = [] → ∀ r v, versions g.entry r = some v →
    v ∉ calls.filterMap Call.newVar? ∧ ∀ b, v ∉ (phis b).map Phi.dst

/-- Every history of calls that ends in `seal_phis` has versions on entering the blocks. -/
structure CommonBuilder.ReadsVersions {σ : Type} (B : CommonBuilder σ) (g : SsaCfg) : Prop where
  newVar : ∀ s reg v s', B.newVar s reg = .ok (v, s') → v.reg = reg
  sealed : ∀ calls s s', B.History g calls s → B.sealPhis g s = .ok s' →
    ∃ versions, EntryVersions g calls (fun b => (B.takePhis s' b).1) versions

section Calls

theorem written_append_write (calls : List Call) (bid : BlockId) (reg : Nat) (v : VarId)
    (b : BlockId) (r : Nat) : written (calls ++ [.write bid reg v]) b r =
      if b = bid ∧ r = reg then some v else written calls b r := by
  rw [written, List.foldl_append]
  rfl

@[simp] theorem written_append_read (calls : List Call) (bid : BlockId) (reg : Nat) (v : VarId) :
    written (calls ++ [.read bid reg v]) = written calls := by
  rw [written, List.foldl_append]
  rfl

@[simp] theorem written_append_newVar (calls : List Call) (reg : Nat) (v : VarId) :
    written (calls ++ [.newVar reg v]) = written calls := by
  rw [written, List.foldl_append]
  rfl

/-- A history without its results of `new_var` in order. -/
theorem CommonBuilder.History.calls {σ : Type} {B : CommonBuilder σ} {g : SsaCfg}
    {calls : List Call} {s : σ} (h : B.History g calls s) :
    B.Calls g (calls.filterMap Call.newVar?) s := by
  induction h with
  | new => exact .new
  | read _ hbid hread ih =>
    rw [List.filterMap_append, List.filterMap_cons_none rfl, List.filterMap_nil, List.append_nil]
    exact ih.read hbid hread
  | newVar _ hnew ih =>
    rw [List.filterMap_append]
    exact ih.newVar hnew
  | @write calls s bid reg v _ hbid hmem ih =>
    rw [List.filterMap_append, List.filterMap_cons_none rfl, List.filterMap_nil, List.append_nil]
    exact ih.write hbid (List.mem_filterMap.mpr ⟨_, hmem, rfl⟩)

end Calls

/-! ## One phi for each block and register -/

namespace Renaming

variable {g : SsaCfg} {calls : List Call} {s : Renaming}
  {versions : BlockId → Nat → Option VarId}

/-- `versions` has the versions of the builder on entering the blocks, and the phis up to the
`i`-th have their arguments. -/
structure Tracks (g : SsaCfg) (calls : List Call) (i : Nat) (s : Renaming)
    (versions : BlockId → Nat → Option VarId) : Prop where
  current : ∀ b r, s.current.lookup (b, r) = (written calls b r).or (versions b r)
  own : ∀ b, OwnVersions (versions b)
  read : ∀ before after b r v, calls = before ++ .read b r v :: after →
    (written before b r).or (versions b r) = some v
  phi : ∀ x ∈ s.phis, versions x.1 x.2.dst.reg = some x.2.dst
  placed : ∀ b r v, versions b r = some v →
    if allPredecessors g b = [] then v ∈ s.unwritten else ∃ x ∈ s.phis, x.1 = b ∧ x.2.dst = v
  arg : ∀ x ∈ s.phis, ∀ p v, (p, v) ∈ x.2.args → p ∈ allPredecessors g x.1 ∧
    s.current.lookup (p, x.2.dst.reg) = some v
  covered : ∀ j < i, ∀ x, s.phis[j]? = some x →
    ∀ p ∈ allPredecessors g x.1, p ∈ x.2.args.map Prod.fst

/-- More versions, and what was looked up before is found again. -/
structure Grows (s s' : Renaming) : Prop where
  current : ∀ k v, s.current.lookup k = some v → s'.current.lookup k = some v
  phis : s.phis <+: s'.phis

theorem Grows.refl (s : Renaming) : Grows s s := ⟨fun _ _ h => h, List.prefix_rfl⟩

theorem Grows.trans {s s' s'' : Renaming} (h : Grows s s') (h' : Grows s' s'') : Grows s s'' :=
  ⟨fun k v hv => h'.current k v (h.current k v hv), h.phis.trans h'.phis⟩

/-- A read finds the current version, or it makes the version on entering the block. -/
theorem Tracks.readVariable {i : Nat} (h : Tracks g calls i s versions) (hi : i ≤ s.phis.length)
    (b : BlockId) (reg : Nat) : ∃ versions',
      Tracks g calls i (s.readVariable g b reg).2 versions' ∧
      Grows s (s.readVariable g b reg).2 ∧
      (s.readVariable g b reg).2.current.lookup (b, reg) = some (s.readVariable g b reg).1 := by
  rw [Renaming.readVariable]
  cases hlookup : s.current.lookup (b, reg) with
  | some v => exact ⟨versions, h, Grows.refl s, hlookup⟩
  | none =>
    have hnone : written calls b reg = none ∧ versions b reg = none :=
      Option.or_eq_none_iff.mp ((h.current b reg).symm.trans hlookup)
    let v : VarId := ⟨reg, s.next⟩
    let versions' := fun b' r => if b' = b ∧ r = reg then some v else versions b' r
    have hold : ∀ b' r x, versions b' r = some x → versions' b' r = some x := by
      intro b' r x hx
      have hne : ¬ (b' = b ∧ r = reg) := by
        rintro ⟨rfl, rfl⟩
        rw [hnone.2] at hx
        cases hx
      rw [← hx]
      exact if_neg hne
    have hnew : ∀ b' r x, versions' b' r = some x → b' = b ∧ r = reg ∧ x = v ∨
        versions b' r = some x := by
      intro b' r x hx
      by_cases heq : b' = b ∧ r = reg
      · left
        rw [show versions' b' r = some v from if_pos heq] at hx
        exact ⟨heq.1, heq.2, (Option.some.inj hx).symm⟩
      · right
        rw [← hx]
        exact (if_neg heq).symm
    have hcons : ∀ b' r, (((b, reg), v) :: s.current).lookup (b', r) =
        (written calls b' r).or (versions' b' r) := by
      intro b' r
      by_cases heq : b' = b ∧ r = reg
      · obtain ⟨rfl, rfl⟩ := heq
        rw [List.lookup_cons_self, hnone.1, Option.none_or]
        exact (if_pos ⟨rfl, rfl⟩).symm
      · have hne : ((b', r) == (b, reg)) = false := by simpa using heq
        rw [List.lookup_cons, hne, h.current, show versions' b' r = versions b' r from if_neg heq]
    have hgrows : ∀ k x, s.current.lookup k = some x →
        (((b, reg), v) :: s.current).lookup k = some x := by
      intro k x hx
      have hne : (k == (b, reg)) = false := by
        rw [beq_eq_false_iff_ne]
        rintro rfl
        rw [hlookup] at hx
        cases hx
      rw [List.lookup_cons, hne, ← hx]
    have hread : ∀ before after b r x, calls = before ++ .read b r x :: after →
        (written before b r).or (versions' b r) = some x := by
      intro before after b r x hcalls
      have hx := h.read before after b r x hcalls
      cases hwritten : written before b r with
      | some y => rwa [hwritten, Option.some_or] at hx
      | none =>
        rw [hwritten, Option.none_or] at hx
        exact hold b r x hx
    have hown : ∀ b, OwnVersions (versions' b) := by
      intro b' r x hx
      rcases hnew b' r x hx with ⟨rfl, rfl, rfl⟩ | hx
      · rfl
      · exact h.own b' r x hx
    dsimp only
    split
    · next hpreds =>
      refine ⟨versions', ⟨hcons, hown, hread,
        fun x hx => hold _ _ _ (h.phi x hx), fun b' r x hx => ?_,
        fun x hx p u hu => ⟨(h.arg x hx p u hu).1, hgrows _ _ (h.arg x hx p u hu).2⟩, h.covered⟩,
        ⟨hgrows, List.prefix_rfl⟩, List.lookup_cons_self⟩
      rcases hnew b' r x hx with ⟨rfl, rfl, rfl⟩ | hx
      · rw [if_pos hpreds]
        exact List.mem_append_right _ List.mem_cons_self
      · have hplaced := h.placed b' r x hx
        split
        · next hpreds' =>
          rw [if_pos hpreds'] at hplaced
          exact List.mem_append_left _ hplaced
        · next hpreds' => rwa [if_neg hpreds'] at hplaced
    · next hpreds =>
      refine ⟨versions', ⟨hcons, hown, hread, fun x hx => ?_, fun b' r x hx => ?_,
        fun x hx p u hu => ?_, fun j hj x hx => ?_⟩,
        ⟨hgrows, List.prefix_append _ _⟩, List.lookup_cons_self⟩
      · rcases List.mem_append.mp hx with hx | hx
        · exact hold _ _ _ (h.phi x hx)
        · rw [List.mem_singleton.mp hx]
          exact if_pos ⟨rfl, rfl⟩
      · rcases hnew b' r x hx with ⟨rfl, rfl, rfl⟩ | hx
        · rw [if_neg hpreds]
          exact ⟨_, List.mem_append_right _ List.mem_cons_self, rfl, rfl⟩
        · have hplaced := h.placed b' r x hx
          split
          · next hpreds' => rwa [if_pos hpreds'] at hplaced
          · next hpreds' =>
            rw [if_neg hpreds'] at hplaced
            obtain ⟨y, hy, hplace⟩ := hplaced
            exact ⟨y, List.mem_append_left _ hy, hplace⟩
      · rcases List.mem_append.mp hx with hx | hx
        · exact ⟨(h.arg x hx p u hu).1, hgrows _ _ (h.arg x hx p u hu).2⟩
        · rw [List.mem_singleton.mp hx] at hu
          cases hu
      · rw [List.getElem?_append_left (by omega)] at hx
        exact h.covered j hj x hx

/-- The arguments of a phi are what the predecessors leave. -/
theorem Tracks.readArgs {i : Nat} {reg : Nat} {preds : List BlockId}
    {acc : List (BlockId × VarId) × Renaming} (h : Tracks g calls i acc.2 versions)
    (hi : i ≤ acc.2.phis.length)
    (hargs : ∀ p v, (p, v) ∈ acc.1 → acc.2.current.lookup (p, reg) = some v) :
    ∃ versions', Tracks g calls i (preds.foldl (readArg g reg) acc).2 versions' ∧
      Grows acc.2 (preds.foldl (readArg g reg) acc).2 ∧
      (preds.foldl (readArg g reg) acc).1.map Prod.fst = acc.1.map Prod.fst ++ preds ∧
      ∀ p v, (p, v) ∈ (preds.foldl (readArg g reg) acc).1 →
        (preds.foldl (readArg g reg) acc).2.current.lookup (p, reg) = some v := by
  induction preds generalizing acc versions with
  | nil => exact ⟨versions, h, Grows.refl _, (List.append_nil _).symm, hargs⟩
  | cons p preds ih =>
    obtain ⟨versions₁, h₁, hgrows₁, hlookup⟩ := h.readVariable hi p reg
    obtain ⟨versions', h', hgrows, hfst, hargs'⟩ := @ih versions₁ (readArg g reg acc p) h₁
      (hi.trans hgrows₁.phis.length_le) (by
        intro q v hq
        rcases List.mem_append.mp hq with hq | hq
        · exact hgrows₁.current _ _ (hargs q v hq)
        · cases List.mem_singleton.mp hq
          exact hlookup)
    refine ⟨versions', h', hgrows₁.trans hgrows, ?_, hargs'⟩
    rw [List.foldl_cons, hfst, readArg]
    simp

/-- The phi at index `i` gets its arguments. -/
theorem Tracks.setArgs {i : Nat} (h : Tracks g calls i s versions) {x : BlockId × Phi}
    (hx : s.phis[i]? = some x) {args : List (BlockId × VarId)}
    (hfst : args.map Prod.fst = allPredecessors g x.1)
    (hargs : ∀ p v, (p, v) ∈ args → s.current.lookup (p, x.2.dst.reg) = some v) :
    Tracks g calls (i + 1) (s.setArgs i args) versions := by
  have hphis : ∀ j, (s.setArgs i args).phis[j]? =
      (s.phis[j]?).map fun y => if j = i then (y.1, ⟨y.2.dst, args⟩) else y := by
    intro j
    simp only [Renaming.setArgs, List.getElem?_modify, eq_comm]
    rfl
  have hmem : ∀ y ∈ (s.setArgs i args).phis, ∃ z ∈ s.phis, y.1 = z.1 ∧ y.2.dst = z.2.dst ∧
      (y.2.args = z.2.args ∨ z = x ∧ y.2.args = args) := by
    intro y hy
    obtain ⟨j, hj⟩ := List.mem_iff_getElem?.mp hy
    rw [hphis j] at hj
    obtain ⟨z, hz, rfl⟩ := Option.map_eq_some_iff.mp hj
    refine ⟨z, List.mem_of_getElem? hz, ?_⟩
    split
    · next heq =>
      subst heq
      exact ⟨rfl, rfl, Or.inr ⟨Option.some.inj (hz.symm.trans hx), rfl⟩⟩
    · exact ⟨rfl, rfl, Or.inl rfl⟩
  refine ⟨h.current, h.own, h.read, fun y hy => ?_, fun b r v hv => ?_,
    fun y hy p v hv => ?_, fun j hj y hy => ?_⟩
  · obtain ⟨z, hz, hblock, hdst, -⟩ := hmem y hy
    rw [hblock, hdst]
    exact h.phi z hz
  · have hplaced := h.placed b r v hv
    split
    · next hpreds => rwa [if_pos hpreds] at hplaced
    · next hpreds =>
      rw [if_neg hpreds] at hplaced
      obtain ⟨z, hz, hblock, hdst⟩ := hplaced
      obtain ⟨j, hj⟩ := List.mem_iff_getElem?.mp hz
      refine ⟨_, List.mem_of_getElem? ((hphis j).trans (congrArg (Option.map _) hj)), ?_⟩
      split <;> exact ⟨hblock, hdst⟩
  · obtain ⟨z, hz, hblock, hdst, heq | ⟨rfl, heq⟩⟩ := hmem y hy
    · rw [hblock, hdst]
      exact h.arg z hz p v (heq ▸ hv)
    · rw [heq] at hv
      rw [hblock, hdst]
      exact ⟨hfst ▸ List.mem_map_of_mem hv, hargs p v hv⟩
  · rw [hphis j] at hy
    obtain ⟨z, hz, rfl⟩ := Option.map_eq_some_iff.mp hy
    split
    · next heq =>
      subst heq
      obtain rfl := Option.some.inj (hz.symm.trans hx)
      exact fun p hp => hfst ▸ hp
    · next hne => exact h.covered j (by omega) z hz

theorem Tracks.sealFrom {fuel i : Nat} {s' : Renaming} (h : Tracks g calls i s versions)
    (hi : i ≤ s.phis.length) (hseal : sealFrom g fuel i s = .ok s') :
    ∃ versions', Tracks g calls s'.phis.length s' versions' := by
  induction fuel generalizing i s versions with
  | zero => cases hseal
  | succ fuel ih =>
    rw [Renaming.sealFrom] at hseal
    split at hseal
    · next hnone =>
      cases hseal
      have hlen : i = s'.phis.length := by
        have hge := List.getElem?_eq_none_iff.mp hnone
        omega
      exact ⟨versions, hlen ▸ h⟩
    · next x hx =>
      obtain ⟨versions₁, h₁, hgrows, hfst, hargs⟩ :=
        @Tracks.readArgs g calls versions i x.2.dst.reg (allPredecessors g x.1) ([], s) h hi
          fun _ _ hmem => by cases hmem
      have hlt : i < s.phis.length := (List.getElem?_eq_some_iff.mp hx).1
      have hx₁ : ((allPredecessors g x.1).foldl (readArg g x.2.dst.reg) ([], s)).2.phis[i]? =
        some x := by
        obtain ⟨rest, hrest⟩ := hgrows.phis
        rw [← hrest, List.getElem?_append_left hlt]
        exact hx
      refine ih (h₁.setArgs hx₁ hfst hargs) ?_ hseal
      have hlt' := (List.getElem?_eq_some_iff.mp hx₁).1
      rw [Renaming.setArgs]
      simpa using hlt'

end Renaming

end Hermes.Decompile
