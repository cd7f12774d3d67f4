-- SUMMARY: The names that coalescing gives to the versions of a register.
import DroidsawHermes.Decompile.DeadCode

/-!
# Coalesced names

`coalesce_phi_names` of `decompile/optimize.rs` gives the versions of a register one name, where a
phi or a move connects them.
-/

namespace Hermes.Decompile

/-- `var_names`. -/
abbrev NameMap := OrdMap VarId String

/-- The name of a variable that has no other is its text. -/
def NameMap.shown (names : NameMap) (v : VarId) : String := (names.get? v).getD v.display

/-- `coalesce_groups`. -/
abbrev NameGroups := OrdMap Nat (OrdSet VarId)

def NameGroups.add (groups : NameGroups) (dst : VarId) (vars : List VarId) : NameGroups :=
  groups.insert dst.reg ((dst :: vars).foldl OrdSet.insert ((groups.get? dst.reg).getD .empty))

/-- `all_same_reg`. -/
def Phi.sameRegister (phi : Phi) : Bool := phi.args.all fun arg => arg.2.reg = phi.dst.reg

def NameGroups.addPhi (groups : NameGroups) (phi : Phi) : NameGroups :=
  if phi.sameRegister then groups.add phi.dst (phi.args.map Prod.snd) else groups

def NameGroups.addMov (groups : NameGroups) (op : SsaOp) : NameGroups :=
  match op.dst, op.copySrc with
  | some dst, some src => if dst.reg = src.reg then groups.add dst [src] else groups
  | _, _ => groups

def SsaFunction.nameGroups (f : SsaFunction) : NameGroups :=
  f.ops.foldl NameGroups.addMov (f.phis.foldl NameGroups.addPhi .empty)

/-- The first name in the group, or the register. -/
def NameMap.groupName (names : NameMap) (reg : Nat) (vars : OrdSet VarId) : String :=
  (vars.keys.findSome? names.get?).getD ("r" ++ Nat.repr reg)

def NameMap.nameGroup (names : NameMap) (group : Nat × OrdSet VarId) : NameMap :=
  (group.2.keys.map fun v => (v, names.groupName group.1 group.2)).foldl
    (fun names x => names.insert x.1 x.2) names

def coalescePhiNames (f : SsaFunction) (names : NameMap) : NameMap :=
  f.nameGroups.toList.foldl NameMap.nameGroup names

/-! ## Groups -/

/-- A group has variables of its register. -/
def NameGroups.Sound (groups : NameGroups) : Prop :=
  ∀ r vars, groups.get? r = some vars → ∀ v ∈ vars.keys, v.reg = r

def NameGroups.Has (groups : NameGroups) (v : VarId) : Prop :=
  ∃ vars, groups.get? v.reg = some vars ∧ v ∈ vars.keys

theorem NameGroups.Sound.add {groups : NameGroups} (h : groups.Sound) {dst : VarId}
    {vars : List VarId} (hvars : ∀ v ∈ vars, v.reg = dst.reg) : (groups.add dst vars).Sound := by
  intro r vars' hget v hv
  rw [NameGroups.add, OrdMap.get?_insert] at hget
  split at hget
  · next heq =>
    subst heq
    obtain rfl := Option.some.inj hget
    rcases OrdSet.mem_foldl_insert.mp hv with hv | hv
    · rcases List.mem_cons.mp hv with rfl | hv
      · rfl
      · exact hvars v hv
    · cases hold : groups.get? dst.reg with
      | none =>
        rw [hold] at hv
        cases hv
      | some old =>
        rw [hold] at hv
        exact h _ old hold v hv
  · exact h r vars' hget v hv

theorem NameGroups.has_add {groups : NameGroups} {dst v : VarId} {vars : List VarId}
    (hv : v ∈ dst :: vars) (hreg : v.reg = dst.reg) : (groups.add dst vars).Has v :=
  ⟨_, by rw [add, OrdMap.get?_insert, if_pos hreg], OrdSet.mem_foldl_insert.mpr (Or.inl hv)⟩

theorem NameGroups.Has.add {groups : NameGroups} {v : VarId} (h : groups.Has v) (dst : VarId)
    (vars : List VarId) : (groups.add dst vars).Has v := by
  obtain ⟨old, hget, hv⟩ := h
  by_cases heq : v.reg = dst.reg
  · refine ⟨_, by rw [NameGroups.add, OrdMap.get?_insert, if_pos heq], ?_⟩
    rw [← heq, hget]
    exact OrdSet.mem_foldl_insert.mpr (Or.inr hv)
  · exact ⟨old, by rw [NameGroups.add, OrdMap.get?_insert, if_neg heq, hget], hv⟩

theorem Phi.sameRegister_iff {phi : Phi} :
    phi.sameRegister = true ↔ ∀ arg ∈ phi.args, arg.2.reg = phi.dst.reg := by
  simp [sameRegister]

theorem NameGroups.Sound.addPhi {groups : NameGroups} (h : groups.Sound) (phi : Phi) :
    (groups.addPhi phi).Sound := by
  rw [NameGroups.addPhi]
  split
  · next hsame =>
    refine h.add fun v hv => ?_
    obtain ⟨arg, harg, rfl⟩ := List.mem_map.mp hv
    exact Phi.sameRegister_iff.mp hsame arg harg
  · exact h

theorem NameGroups.Sound.addMov {groups : NameGroups} (h : groups.Sound) (op : SsaOp) :
    (groups.addMov op).Sound := by
  unfold NameGroups.addMov
  split
  · split
    · next heq => exact h.add fun v hv => by rw [List.mem_singleton.mp hv, heq]
    · exact h
  · exact h

theorem NameGroups.Has.addPhi {groups : NameGroups} {v : VarId} (h : groups.Has v) (phi : Phi) :
    (groups.addPhi phi).Has v := by
  rw [NameGroups.addPhi]
  split
  · exact h.add _ _
  · exact h

theorem NameGroups.Has.addMov {groups : NameGroups} {v : VarId} (h : groups.Has v) (op : SsaOp) :
    (groups.addMov op).Has v := by
  unfold NameGroups.addMov
  split
  · split
    · exact h.add _ _
    · exact h
  · exact h

theorem SsaFunction.nameGroups_sound (f : SsaFunction) : f.nameGroups.Sound := by
  refine List.foldlRecOn (motive := NameGroups.Sound) f.ops _ ?_ fun _ h op _ => h.addMov op
  exact List.foldlRecOn (motive := NameGroups.Sound) f.phis _
    (fun _ _ hget => by cases hget) fun _ h phi _ => h.addPhi phi

/-- What a phi over one register connects is in its group. -/
theorem SsaFunction.nameGroups_phi {f : SsaFunction} {phi : Phi} (hphi : phi ∈ f.phis)
    (hsame : phi.sameRegister = true) {v : VarId} (hv : v ∈ phi.dst :: phi.args.map Prod.snd) :
    f.nameGroups.Has v := by
  obtain ⟨before, after, hphis⟩ := List.append_of_mem hphi
  have hreg : v.reg = phi.dst.reg := by
    rcases List.mem_cons.mp hv with rfl | hv
    · rfl
    · obtain ⟨arg, harg, rfl⟩ := List.mem_map.mp hv
      exact Phi.sameRegister_iff.mp hsame arg harg
  refine List.foldlRecOn (motive := (NameGroups.Has · v)) f.ops _ ?_ fun _ h op _ => h.addMov op
  rw [hphis, List.foldl_append, List.foldl_cons]
  refine List.foldlRecOn (motive := (NameGroups.Has · v)) after _ ?_ fun _ h phi _ => h.addPhi phi
  rw [NameGroups.addPhi, if_pos hsame]
  exact NameGroups.has_add hv hreg

/-! ## Names -/

theorem findSome?_congr {α β : Type} {g g' : α → Option β} {l : List α}
    (h : ∀ a ∈ l, g a = g' a) : l.findSome? g = l.findSome? g' := by
  induction l with
  | nil => rfl
  | cons a l ih =>
    rw [List.forall_mem_cons] at h
    rw [List.findSome?_cons, List.findSome?_cons, h.1, ih h.2]

theorem NameMap.get?_nameGroup (names : NameMap) (group : Nat × OrdSet VarId) (v : VarId) :
    (names.nameGroup group).get? v =
      if v ∈ group.2.keys then some (names.groupName group.1 group.2) else names.get? v := by
  have hkeys : (group.2.keys.map fun v => (v, names.groupName group.1 group.2)).map Prod.fst =
      group.2.keys := by
    rw [List.map_map]
    exact List.map_id _
  rw [nameGroup]
  split
  · next hv =>
    refine OrdMap.get?_foldl_insert ?_ (List.mem_map.mpr ⟨v, hv, rfl⟩)
    rw [hkeys]
    exact group.2.keys_nodup
  · next hv =>
    refine OrdMap.get?_foldl_insert_of_notMem ?_
    rwa [hkeys]

/-- Groups of other registers leave a variable its name. -/
theorem NameMap.get?_foldl_nameGroup_of_reg {groups : List (Nat × OrdSet VarId)}
    (hsound : ∀ group ∈ groups, ∀ v ∈ group.2.keys, v.reg = group.1) {v : VarId}
    (hv : ∀ group ∈ groups, v ∉ group.2.keys) (names : NameMap) :
    (groups.foldl nameGroup names).get? v = names.get? v := by
  induction groups generalizing names with
  | nil => rfl
  | cons group groups ih =>
    rw [List.forall_mem_cons] at hsound hv
    rw [List.foldl_cons, ih hsound.2 hv.2, get?_nameGroup, if_neg hv.1]

/-- A group has one name, by its variables' names before. -/
theorem NameMap.get?_foldl_nameGroup {groups : List (Nat × OrdSet VarId)}
    (hsound : ∀ group ∈ groups, ∀ v ∈ group.2.keys, v.reg = group.1)
    (hregs : (groups.map Prod.fst).Nodup) {group : Nat × OrdSet VarId} (hgroup : group ∈ groups)
    {v : VarId} (hv : v ∈ group.2.keys) (names : NameMap) :
    (groups.foldl nameGroup names).get? v = some (names.groupName group.1 group.2) := by
  induction groups generalizing names with
  | nil => cases hgroup
  | cons first groups ih =>
    rw [List.forall_mem_cons] at hsound
    obtain ⟨hnew, hregs⟩ := List.nodup_cons.mp hregs
    rw [List.foldl_cons]
    rcases List.mem_cons.mp hgroup with rfl | hmem
    · rw [get?_foldl_nameGroup_of_reg hsound.2, get?_nameGroup, if_pos hv]
      intro other hother hv'
      refine hnew (List.mem_map.mpr ⟨other, hother, ?_⟩)
      rw [← hsound.2 other hother v hv', hsound.1 v hv]
    · have hfresh : ∀ u ∈ group.2.keys, u ∉ first.2.keys := by
        intro u hu hu'
        refine hnew (List.mem_map.mpr ⟨group, hmem, ?_⟩)
        rw [← hsound.2 group hmem u hu, hsound.1 u hu']
      have hname : (names.nameGroup first).groupName group.1 group.2 =
          names.groupName group.1 group.2 := by
        have hsome : group.2.keys.findSome? (names.nameGroup first).get? =
            group.2.keys.findSome? names.get? :=
          findSome?_congr fun u hu => by rw [get?_nameGroup, if_neg (hfresh u hu)]
        rw [groupName, groupName, hsome]
      rw [ih hsound.2 hregs hmem, hname]

section Coalesced

variable (f : SsaFunction) (names : NameMap)

theorem SsaFunction.nameGroups_regs : ∀ group ∈ f.nameGroups.toList, ∀ v ∈ group.2.keys,
    v.reg = group.1 := fun group hgroup =>
  f.nameGroups_sound group.1 group.2 (OrdMap.get?_eq_some_iff.mpr hgroup)

theorem get?_coalescePhiNames {r : Nat} {vars : OrdSet VarId}
    (hgroup : f.nameGroups.get? r = some vars) {v : VarId} (hv : v ∈ vars.keys) :
    (coalescePhiNames f names).get? v = some (names.groupName r vars) :=
  NameMap.get?_foldl_nameGroup f.nameGroups_regs f.nameGroups.keys_nodup
    (OrdMap.get?_eq_some_iff.mp hgroup) hv names

theorem get?_coalescePhiNames_of_not {v : VarId} (hv : ¬ f.nameGroups.Has v) :
    (coalescePhiNames f names).get? v = names.get? v := by
  refine NameMap.get?_foldl_nameGroup_of_reg f.nameGroups_regs (fun group hgroup hmem => hv ?_)
    names
  refine ⟨group.2, ?_, hmem⟩
  rw [f.nameGroups_regs group hgroup v hmem]
  exact OrdMap.get?_eq_some_iff.mpr hgroup

variable {f}

/-- A phi over one register copies a name to itself. -/
theorem shown_sameRegister {phi : Phi} (hphi : phi ∈ f.phis) (hsame : phi.sameRegister = true)
    {arg : BlockId × VarId} (harg : arg ∈ phi.args) :
    (coalescePhiNames f names).shown arg.2 = (coalescePhiNames f names).shown phi.dst := by
  obtain ⟨vars, hget, hdst⟩ := SsaFunction.nameGroups_phi hphi hsame List.mem_cons_self
  obtain ⟨vars', hget', hmem⟩ := SsaFunction.nameGroups_phi hphi hsame
    (List.mem_cons_of_mem _ (List.mem_map_of_mem harg))
  rw [Phi.sameRegister_iff.mp hsame arg harg, hget] at hget'
  obtain rfl := Option.some.inj hget'
  rw [NameMap.shown, NameMap.shown, get?_coalescePhiNames f names hget hdst,
    get?_coalescePhiNames f names hget hmem]
  rfl

/-- Without names before, a name says the register. -/
theorem shown_coalescePhiNames_empty (v : VarId) :
    (coalescePhiNames f .empty).shown v = "r" ++ Nat.repr v.reg ∨
      (coalescePhiNames f .empty).shown v = v.display := by
  by_cases hv : f.nameGroups.Has v
  · left
    obtain ⟨vars, hget, hmem⟩ := hv
    have hnone : vars.keys.findSome? (OrdMap.empty : NameMap).get? = none :=
      List.findSome?_eq_none_iff.mpr fun _ _ => rfl
    rw [NameMap.shown, get?_coalescePhiNames f .empty hget hmem, NameMap.groupName, hnone]
    rfl
  · right
    rw [NameMap.shown, get?_coalescePhiNames_of_not f .empty hv]
    rfl

theorem reg_eq_of_shown {v w : VarId}
    (h : (coalescePhiNames f .empty).shown v = (coalescePhiNames f .empty).shown w) :
    v.reg = w.reg := by
  have hregister : ∀ {a b : Nat}, "r" ++ Nat.repr a = "r" ++ Nat.repr b → a = b := fun h =>
    Nat.repr_injective ((String.append_right_inj "r").mp h)
  have hdisplay : ∀ {a : Nat} {u : VarId}, "r" ++ Nat.repr a ≠ u.display := by
    intro a u heq
    have hmem : '_' ∈ u.display.toList := by simp [VarId.display]
    rw [← heq, String.toList_append] at hmem
    rcases List.mem_append.mp hmem with hmem | hmem
    · exact absurd hmem (by decide)
    · exact underscore_not_mem_repr a hmem
  rcases shown_coalescePhiNames_empty (f := f) v with hv | hv <;>
    rcases shown_coalescePhiNames_empty (f := f) w with hw | hw <;> rw [hv, hw] at h
  · exact hregister h
  · exact absurd h hdisplay
  · exact absurd h.symm hdisplay
  · rw [VarId.display_injective h]

end Coalesced

end Hermes.Decompile
