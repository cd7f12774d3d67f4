-- SUMMARY: Returns and throws through the passes up to the pattern rewrite: the variable that they read and what defines it.
import DroidsawHermes.Decompile.ConstantFolds
import DroidsawHermes.Decompile.PatternClosed

/-!
# Returns and throws

The passes move the variable of a return or throw along copies, along the results of
`SelectObject`s and along the results of wrapper calls. Only the propagation of strings puts
something else in its place.
-/

namespace Hermes.Decompile

/-! ## Up to the patterns -/

theorem SsaOp.Kept.isExit {op op' : SsaOp} (h : op.Kept op') (hexit : op'.IsExit) : op.IsExit := by
  rcases h.name with hname | ⟨-, hnot⟩
  · rwa [IsExit, ← hname]
  · exact absurd hexit.settled hnot

section

variable {getStr : Nat → String} {s s' s'' : SsaFunction}

end

/-! ## Operations up to the patterns -/

/-- The names that the passes in front of the patterns give. -/
def preparedNames : List String := ["LoadConstInt", "LoadConstDouble", "HermesTaggedTemplate"]

/-- What becomes of an operation that stays. Its variables are among those it had, replaced
by `σ`. -/
structure SsaOp.Prepared (σ : VarId → VarId) (op op' : SsaOp) : Prop where
  kept : op.Kept op'
  name : op'.name = op.name ∨ op'.name ∈ preparedNames
  reads : ∀ w ∈ op'.reads, ∃ x ∈ op.reads, σ x = w

/-- The operations of `s'` come from those of `s`. -/
def Prepares (σ : VarId → VarId) (s s' : SsaFunction) : Prop :=
  ∀ op' ∈ s'.ops, ∃ op ∈ s.ops, op.Prepared σ op'

namespace SsaOp.Prepared

variable {σ : VarId → VarId} {op op' op'' : SsaOp}

theorem refl (op : SsaOp) : op.Prepared id op :=
  ⟨.refl op, Or.inl rfl, fun w hw => ⟨w, hw, rfl⟩⟩

theorem trans (h : op.Prepared σ op') (h' : op'.Prepared id op'') : op.Prepared σ op'' where
  kept := h.kept.trans h'.kept
  name := by
    rcases h'.name with hname | hname
    · rw [hname]
      exact h.name
    · exact Or.inr hname
  reads := by
    intro w hw
    obtain ⟨x, hx, rfl⟩ := h'.reads w hw
    exact h.reads x hx

end SsaOp.Prepared

namespace Prepares

variable {σ : VarId → VarId} {s s' s'' : SsaFunction}

theorem trans (h : Prepares σ s s') (h' : Prepares id s' s'') : Prepares σ s s'' := by
  intro op'' hop''
  obtain ⟨op', hop', hprepared'⟩ := h' op'' hop''
  obtain ⟨op, hop, hprepared⟩ := h op' hop'
  exact ⟨op, hop, hprepared.trans hprepared'⟩

theorem mapOps {f : SsaOp → SsaOp} (h : ∀ op ∈ s.ops, op.Prepared σ (f op)) :
    Prepares σ s (s.mapOps f) := by
  intro op' hop'
  rw [SsaFunction.ops_mapOps] at hop'
  obtain ⟨op, hop, rfl⟩ := List.mem_map.mp hop'
  exact ⟨op, hop, h op hop⟩

end Prepares

section

variable {getStr : Nat → String} {s : SsaFunction}

end

/-! ## Closed functions up to the patterns -/

section

variable {getStr : Nat → String} {s : SsaFunction}

end

/-! ## Strings and exits up to the patterns -/

section

variable {getStr : Nat → String} {s : SsaFunction}

end

/-! ## Exits through the patterns -/

namespace Image

variable {E E' : VarId → VarId → Prop} {N : String → String → Prop} {op op' op'' : SsaOp}

/-- The name stays where `N` does not change it. -/
theorem same_name (h : Image E N op op') (hN : ¬ N op.name op'.name) :
    Image E (fun _ _ => False) op op' :=
  ⟨h.dst, h.original, h.operands, Or.inl (h.name.resolve_right hN)⟩

theorem mono (h : Image E N op op') (hE : ∀ a b, E a b → E' a b) : Image E' N op op' := by
  obtain ⟨τ, hτ, hoperands⟩ := h.operands
  exact ⟨h.dst, h.original, ⟨τ, fun v => Relation.ReflTransGen.mono hE _ _ (hτ v), hoperands⟩, h.name⟩

theorem trans (h : Image E (fun _ _ => False) op op')
    (h' : Image E (fun _ _ => False) op' op'') : Image E (fun _ _ => False) op op'' where
  dst := h'.dst.trans h.dst
  original := h'.original.trans h.original
  operands := by
    obtain ⟨τ, hτ, hoperands⟩ := h.operands
    obtain ⟨τ', hτ', hoperands'⟩ := h'.operands
    refine ⟨τ' ∘ τ, hτ.comp hτ', ?_⟩
    rw [hoperands', hoperands, List.map_map]
    exact List.map_congr_left fun o _ => SsaOperand.mapVar_comp τ τ' o
  name := by
    have hname := h.name.resolve_right id
    have hname' := h'.name.resolve_right id
    exact Or.inl (hname'.trans hname)

theorem isExit (h : Image E (fun _ _ => False) op op') (hexit : op.IsExit) : op'.IsExit := by
  rwa [SsaOp.IsExit, h.name.resolve_right id]

end Image

/-- A block whose exit has had its variables moved along `E`. -/
structure ExitMoves (E : VarId → VarId → Prop) (b b' : SsaBlock) : Prop where
  id : b'.id = b.id
  exit : ∀ op, b.ops.getLast? = some op → op.IsExit → ∃ op', b'.ops.getLast? = some op' ∧
    Image E (fun _ _ => False) op op'

namespace ExitMoves

variable {E E' : VarId → VarId → Prop} {b b' b'' : SsaBlock} {s s' : SsaFunction}

theorem refl (b : SsaBlock) : ExitMoves E b b :=
  ⟨rfl, fun op hop _ => ⟨op, hop, Image.refl op⟩⟩

theorem trans (h : ExitMoves E b b') (h' : ExitMoves E b' b'') : ExitMoves E b b'' := by
  refine ⟨h'.id.trans h.id, fun op hop hexit => ?_⟩
  obtain ⟨op', hop', himage⟩ := h.exit op hop hexit
  obtain ⟨op'', hop'', himage'⟩ := h'.exit op' hop' (himage.isExit hexit)
  exact ⟨op'', hop'', himage.trans himage'⟩

theorem mono (h : ExitMoves E b b') (hE : ∀ u v, E u v → E' u v) : ExitMoves E' b b' := by
  refine ⟨h.id, fun op hop hexit => ?_⟩
  obtain ⟨op', hop', himage⟩ := h.exit op hop hexit
  exact ⟨op', hop', himage.mono hE⟩

theorem lastOp? (h : List.Forall₂ (ExitMoves E) s.blocks s'.blocks) {id : BlockId} {op : SsaOp}
    (hop : s.lastOp? id = some op) (hexit : op.IsExit) :
    ∃ op', s'.lastOp? id = some op' ∧ Image E (fun _ _ => False) op op' := by
  obtain ⟨b, hb, hlast⟩ := Option.bind_eq_some_iff.mp hop
  obtain ⟨b', hb', hstep⟩ := SsaFunction.block?_forall₂ h (fun _ _ h => h.id) hb
  obtain ⟨op', hop', himage⟩ := hstep.exit op hlast hexit
  exact ⟨op', by rw [SsaFunction.lastOp?, hb', Option.bind_some, hop'], himage⟩

end ExitMoves

section

variable {getStr : Nat → String} {s : SsaFunction} {ops : List SsaOp} {uses : VarId → Nat}

theorem Traced.exit {op folded cur : SsaOp} (h : Traced getStr s ops uses op folded cur)
    (hexit : op.IsExit) : Image (Edge getStr s) (fun _ _ => False) op cur := by
  have hfold : Image (Edge getStr s) (fun _ _ => False) op folded := by
    apply h.fold.same_name
    rintro ⟨hconstruct, -⟩
    rcases hexit with h | h <;> rw [h] at hconstruct <;> revert hconstruct <;> decide
  have hexit' := hfold.isExit hexit
  have hshort : isShortCall folded.name = false := by
    rcases hexit' with h | h <;> rw [h] <;> decide
  have hunwrap := h.unwrap
  rw [toMethodCall_of_not_short hshort] at hunwrap
  refine hfold.trans (hunwrap.same_name ?_)
  rintro ⟨hclosure, -⟩
  rcases hexit' with h | h <;> rw [h] at hclosure <;> revert hclosure <;> decide

/-- A variable goes along an edge of the patterns or along one of the deferred rewrites. -/
def Moves (getStr : Nat → String) (s : SsaFunction) (u v : VarId) : Prop :=
  Edge getStr s u v ∨ (u, v) ∈ (deferred getStr s).2

end

/-! ## Names -/

section

variable {getStr : Nat → String} {s : SsaFunction} {ops : List SsaOp} {uses : VarId → Nat}

/-- The destination, the instruction and the name are the same. -/
structure SameHead (op op' : SsaOp) : Prop where
  dst : op'.dst = op.dst
  original : op'.original = op.original
  name : op'.name = op.name

theorem SameHead.refl (op : SsaOp) : SameHead op op := ⟨rfl, rfl, rfl⟩

theorem SameHead.trans {op op' op'' : SsaOp} (h : SameHead op op') (h' : SameHead op' op'') :
    SameHead op op'' :=
  ⟨h'.dst.trans h.dst, h'.original.trans h.original, h'.name.trans h.name⟩

theorem SameHead.kept {op op' : SsaOp} (h : SameHead op op') : op.Kept op' :=
  ⟨h.dst, h.original, Or.inl h.name⟩

/-- The function `s'` has the operations of `s`, but for `SelectObject`s that it lacks. -/
structure SameOps (s s' : SsaFunction) : Prop where
  back : ∀ op' ∈ s'.ops, ∃ op ∈ s.ops, SameHead op op'
  forth : ∀ op ∈ s.ops, op.name ≠ "SelectObject" → ∃ op' ∈ s'.ops, SameHead op op'

theorem SameOps.refl (s : SsaFunction) : SameOps s s :=
  ⟨fun op hop => ⟨op, hop, .refl op⟩, fun op hop _ => ⟨op, hop, .refl op⟩⟩

theorem SameOps.trans {s s' s'' : SsaFunction} (h : SameOps s s') (h' : SameOps s' s'') :
    SameOps s s'' where
  back := by
    intro op'' hop''
    obtain ⟨op', hop', hhead'⟩ := h'.back op'' hop''
    obtain ⟨op, hop, hhead⟩ := h.back op' hop'
    exact ⟨op, hop, hhead.trans hhead'⟩
  forth := by
    intro op hop hname
    obtain ⟨op', hop', hhead⟩ := h.forth op hop hname
    obtain ⟨op'', hop'', hhead'⟩ := h'.forth op' hop' (by rwa [hhead.name])
    exact ⟨op'', hop'', hhead.trans hhead'⟩

end

/-! ## What holds the value -/

/-- Both functions define the variable, by a phi or by the same instruction. -/
inductive DefinedAlike (s f : SsaFunction) (v : VarId) : Prop where
  | phi (h : v ∈ s.phis.map Phi.dst) (h' : v ∈ f.phis.map Phi.dst)
  | op (op op' : SsaOp) (hop : op ∈ s.ops) (hop' : op' ∈ f.ops) (hdst : op.dst = some v)
    (hkept : op.Kept op')

def wrapperCalls : List String := ["Call1", "Call", "CallLong"]

/-- `w` holds in `f` what `v` holds in `s`, where `C` are the copies of `s`: a construct stands
for the `SelectObject` of its result, and an async closure for the call that wraps it. -/
inductive Carries (C : VarId → VarId → Prop) (s f : SsaFunction) (v : VarId) : VarId → Prop where
  | same (h : DefinedAlike s f v) : Carries C s f v v
  | construct (select : SsaOp) (x w : VarId) (hselect : select ∈ s.ops)
    (hname : select.name = "SelectObject") (hdst : select.dst = some v) (hx : x ∈ select.reads)
    (hw : C x w) (hnew : ∃ op ∈ f.ops, op.dst = some w ∧ op.name = "ConstructNew") :
    Carries C s f v w
  | closure (call : SsaOp) (x w : VarId) (hcall : call ∈ s.ops) (hname : call.name ∈ wrapperCalls)
    (hdst : call.dst = some v) (hx : x ∈ call.reads) (hw : C x w)
    (hasync : ∃ op ∈ f.ops, op.dst = some w ∧ op.name = "CreateAsyncClosure") :
    Carries C s f v w

section

variable {getStr : Nat → String} {s : SsaFunction}

/-- A pass that keeps the definition of the variable keeps its value. -/
theorem Carries.follows {C : VarId → VarId → Prop} {keeps : VarId → Prop}
    {σ : BlockId → SsaOperand → SsaOperand} {f f' : SsaFunction} {v w : VarId}
    (h : Carries C s f v w) (hfollows : Follows keeps σ f f') (hkeeps : keeps w) :
    Carries C s f' v w := by
  have hsettled : ∀ name, Settled name → (∃ op ∈ f.ops, op.dst = some w ∧ op.name = name) →
      ∃ op' ∈ f'.ops, op'.dst = some w ∧ op'.name = name := by
    rintro name hname ⟨op, hop, hdst, rfl⟩
    obtain ⟨op', hop', hkept⟩ := hfollows.ops hop hdst hkeeps
    exact ⟨op', hop', hkept.dst.trans hdst, hkept.name.resolve_right fun hnot => hnot.1 hname⟩
  cases h with
  | same h =>
    refine .same ?_
    cases h with
    | phi h h' =>
      obtain ⟨phi, hphi, rfl⟩ := List.mem_map.mp h'
      obtain ⟨phi', hphi', hdst⟩ := hfollows.phis hphi hkeeps
      exact .phi h (hdst ▸ List.mem_map_of_mem hphi')
    | op op op' hop hop' hdst hkept =>
      obtain ⟨op'', hop'', hkept'⟩ := hfollows.ops hop' (hkept.dst.trans hdst) hkeeps
      exact .op op op'' hop hop'' hdst (hkept.trans hkept')
  | construct select x w hselect hname hdst hx hw hnew =>
    exact .construct select x w hselect hname hdst hx hw (hsettled _ (by decide) hnew)
  | closure call x w hcall hname hdst hx hw hasync =>
    exact .closure call x w hcall hname hdst hx hw (hsettled _ (by decide) hasync)

end

end Hermes.Decompile
