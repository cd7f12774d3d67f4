-- SUMMARY: The order of what literal folds move: what could as well happen at the allocation.
import DroidsawHermes.Structure.LiteralFolds

/-!
# Order of literal folds

A literal fold takes operations up to an allocation. It may do so for operands that are
available there, and past operations that have nothing to do with the object. Each of the three
matchers looks at a part of this only.
-/

namespace Hermes.Structure

open Decompile

/-! ## What is folded -/

/-- Operations that one match folds into an allocation: those that go, and those whose operands
become entries, in the order of the entries. -/
structure FoldGroup where
  alloc : Nat
  removed : List Nat
  entries : List Nat

/-- A literal in the place of an allocation. -/
structure LiteralFold where
  alloc : Nat
  object : Option VarId
  /-- The operands behind the destination. -/
  operands : List SsaOperand
  removed : List Nat
  entries : List Nat

/-- The three matchers. -/
inductive LiteralPass where
  | clusters (tables : VarId → Option SlotTable)
  | arraySpreads (uses : VarId → Nat)
  | objectSpreads (uses : VarId → Nat)

/-- The puts that the slots take their values from. -/
def ClusterFold.slotEntries (f : ClusterFold) : List Nat :=
  (List.range (f.table.keys.zip f.table.values).length).filterMap fun slot =>
    (f.puts.reverse.find? fun put => put.slot = slot).map SlotPut.index

def ClusterFold.group (f : ClusterFold) : FoldGroup :=
  ⟨f.bufferIdx, f.puts.map SlotPut.index, f.slotEntries⟩

def ArrayCluster.group (c : ArrayCluster) : FoldGroup :=
  ⟨c.prefixIdx, [c.spreadIdx, c.defineIdx], [c.spreadIdx, c.defineIdx]⟩

def ObjectCluster.group (c : ObjectCluster) : FoldGroup :=
  ⟨c.allocIdx, c.entries.map Prod.fst, c.entries.map Prod.fst⟩

namespace LiteralPass

def run : LiteralPass → List SsaOp → List SsaOp
  | .clusters tables => foldClusters tables
  | .arraySpreads uses => foldArraySpreads uses
  | .objectSpreads uses => foldObjectSpreads uses

def groups : LiteralPass → List SsaOp → List FoldGroup
  | .clusters tables, ops => (clusterFolds tables ops).map ClusterFold.group
  | .arraySpreads uses, ops => (arrayClusters uses ops).map ArrayCluster.group
  | .objectSpreads uses, ops => (objectClusters uses ops).map ObjectCluster.group

/-- The operations with the literals, before the others go. -/
def rewritten : LiteralPass → List SsaOp → List SsaOp
  | .clusters tables, ops => ops.zipIdx.map fun p =>
    match (clusterFolds tables ops).find? fun f => f.bufferIdx = p.2 with
    | some f => { p.1 with name := "HermesObjectLit", operands := f.operands }
    | none => p.1
  | .arraySpreads uses, ops => ops.zipIdx.map fun p =>
    match (arrayClusters uses ops).reverse.find? fun c => c.prefixIdx = p.2 with
    | some c => { p.1 with
        name := "HermesArraySpreadLit"
        operands :=
          [.dstPlaceholder, p.1.operands[1]?.getD .dstPlaceholder, c.source, c.trailing] }
    | none => p.1
  | .objectSpreads uses, ops => (objectClusters uses ops).foldl ObjectCluster.apply ops

theorem run_eq (pass : LiteralPass) (ops : List SsaOp) :
    pass.run ops =
      Edits.removeAll ((pass.groups ops).flatMap FoldGroup.removed) (pass.rewritten ops) := by
  cases pass with
  | clusters tables =>
    simp only [run, groups, foldClusters, applyFolds, List.flatMap_map]
    rfl
  | arraySpreads uses =>
    simp only [run, groups, foldArraySpreads, applyFolds, List.flatMap_map]
    rfl
  | objectSpreads uses =>
    simp only [run, groups, foldObjectSpreads, List.flatMap_map]
    rfl

/-- The literal of a match. Of the matches that share an allocation, all lose their operations and
the last one gives the entries. -/
def foldOf (pass : LiteralPass) (ops : List SsaOp) (g : FoldGroup) : LiteralFold :=
  let same := (pass.groups ops).filter fun g' => g'.alloc = g.alloc
  {
    alloc := g.alloc
    object := ops[g.alloc]?.bind SsaOp.dst
    operands := (((pass.rewritten ops)[g.alloc]?.map SsaOp.operands).getD []).tail
    removed := (List.range ops.length).filter fun r => r ∈ same.flatMap FoldGroup.removed
    entries := (same.getLast?.map FoldGroup.entries).getD [] }

def folds (pass : LiteralPass) (ops : List SsaOp) : List LiteralFold :=
  (pass.groups ops).map (pass.foldOf ops)

end LiteralPass

/-! ## Keeping the order -/

/-- The variable has its value at the allocation: it is defined before it, or by a pure operation
that is written out there. Which variables are written out is decided behind the folds. -/
inductive AvailableAt (inlines : VarId → Prop) (ops : List SsaOp) (i : Nat) : VarId → Prop where
  | before {v : VarId} (h : ∀ d op, ops[d]? = some op → op.dst = some v → d < i) :
    AvailableAt inlines ops i v
  | inlined {v : VarId} {d : Nat} {op : SsaOp} (hop : ops[d]? = some op) (hdst : op.dst = some v)
    (hne : d ≠ i) (hpure : isPure op.name = true) (hinlines : inlines v)
    (hreads : ∀ u ∈ op.reads, AvailableAt inlines ops i u) : AvailableAt inlines ops i v

def isSpreadCall (op : SsaOp) : Bool :=
  isBuiltinCall op isArraySpread || isBuiltinCall op isCopyDataProperties

/-- The object that an operation writes to, where it does nothing else. -/
def writtenObject (op : SsaOp) : Option VarId :=
  if isSpreadCall op then op.operands[3]?.bind SsaOperand.var?
  else if isSlotPut op ∨ op.name ∈ defineNames ++ putByIndexNames ++ putByIdNames then
    op.operands[0]?.bind SsaOperand.var?
  else none

/-- The operand that an operation stores or spreads. -/
def movedOperand (op : SsaOp) : Option SsaOperand :=
  if isSpreadCall op then op.operands[4]? else op.operands[1]?

def movedVars (ops : List SsaOp) (r : Nat) : List VarId :=
  ((ops[r]?.bind movedOperand).bind SsaOperand.var?).toList

/-- No operation between the allocation and one that goes names the object. -/
def QuietUntil (ops : List SsaOp) (alloc : Nat) (object : Option VarId) (removed : List Nat) :
    Prop :=
  ∀ j op obj, alloc < j → j ∉ removed → (∃ r ∈ removed, j < r) → ops[j]? = some op →
    object = some obj → SsaOperand.var obj ∉ op.operands

/-- The entries of the literal and the contents of the object are told by the indices of the
removed operations, in their order; what these store is not compared again. -/
structure LiteralFold.KeepsOrder (inlines : VarId → Prop) (ops : List SsaOp) (f : LiteralFold) :
    Prop where
  available : ∀ v, SsaOperand.var v ∈ f.operands → AvailableAt inlines ops f.alloc v
  quiet : QuietUntil ops f.alloc f.object f.removed
  writes : ∀ r ∈ f.removed, f.alloc < r ∧
    ∃ op, ops[r]? = some op ∧ (writtenObject op).isSome ∧ writtenObject op = f.object
  order : f.entries = f.removed
  /-- Where the object is named, it holds the entries of the literal. -/
  observed : ∀ j op obj, f.alloc < j → j ∉ f.removed → ops[j]? = some op → f.object = some obj →
    SsaOperand.var obj ∈ op.operands → (f.removed.filter fun r => r < j) = f.entries

/-! ## When they do -/

/-- The match is the only one of its allocation. -/
def FoldGroup.Alone (groups : List FoldGroup) (g : FoldGroup) : Prop :=
  ∀ g' ∈ groups, g'.alloc = g.alloc → g' = g

/-- A value that is defined at the allocation or after it is not the object itself, and it is
written out with what it reads. -/
def LateAvailable (inlines : VarId → Prop) (ops : List SsaOp) (i : Nat) (v : VarId) : Prop :=
  ∀ d op, ops[d]? = some op → op.dst = some v → i ≤ d →
    d ≠ i ∧ inlines v ∧ ∀ u ∈ op.reads, AvailableAt inlines ops i u

/-- The condition of a matcher's group: what it does not look at. -/
def LiteralPass.Safe (inlines : VarId → Prop) : LiteralPass → List SsaOp → Prop
  | .clusters tables, ops => ∀ f ∈ clusterFolds tables ops,
    (∀ r ∈ f.slotEntries, ∀ v ∈ movedVars ops r, LateAvailable inlines ops f.bufferIdx v) ∧
      QuietUntil ops f.bufferIdx (some f.dst) (f.puts.map SlotPut.index) ∧
        (f.puts.map SlotPut.slot).Pairwise (· < ·)
  | .arraySpreads uses, ops => ∀ c ∈ arrayClusters uses ops,
    (∀ r ∈ [c.spreadIdx, c.defineIdx], ∀ v ∈ movedVars ops r,
        AvailableAt inlines ops c.prefixIdx v) ∧
      QuietUntil ops c.prefixIdx (ops[c.prefixIdx]?.bind SsaOp.dst) [c.spreadIdx, c.defineIdx] ∧
        c.group.Alone ((LiteralPass.arraySpreads uses).groups ops)
  | .objectSpreads uses, ops => ∀ c ∈ objectClusters uses ops,
    (∀ r ∈ c.entries.map Prod.fst, ∀ v ∈ movedVars ops r, AvailableAt inlines ops c.allocIdx v) ∧
      QuietUntil ops c.allocIdx (ops[c.allocIdx]?.bind SsaOp.dst)
        ((c.entries.map Prod.fst).take 1) ∧
        c.group.Alone ((LiteralPass.objectSpreads uses).groups ops)

/-! ## Lists of indices -/

/-- Increasing indices are those of the range that are among them. -/
theorem filter_range_mem {l : List Nat} {n : Nat} (hsorted : l.Pairwise (· < ·))
    (hbound : ∀ r ∈ l, r < n) : ((List.range n).filter fun r => r ∈ l) = l := by
  have hnodup : l.Nodup := hsorted.imp Nat.ne_of_lt
  refine List.Perm.eq_of_pairwise (fun a b _ _ (hab : a < b) hba => absurd hab hba.asymm)
    (List.pairwise_lt_range.filter _) hsorted ?_
  refine (List.perm_ext_iff_of_nodup (List.nodup_range.filter _) hnodup).mpr fun r => ?_
  simp only [List.mem_filter, List.mem_range, decide_eq_true_eq]
  exact ⟨And.right, fun hr => ⟨hbound r hr, hr⟩⟩

/-- A list of one value that is not in relation to itself. -/
theorem eq_singleton {α : Type} {R : α → α → Prop} {l : List α} {a : α} (hmem : a ∈ l)
    (heq : ∀ b ∈ l, b = a) (hpairwise : l.Pairwise R) (hirrefl : ¬ R a a) : l = [a] := by
  obtain ⟨b, rest, rfl⟩ := List.exists_cons_of_ne_nil (List.ne_nil_of_mem hmem)
  obtain rfl := heq b List.mem_cons_self
  cases rest with
  | nil => rfl
  | cons c rest =>
    have hc := heq c (by simp)
    have hrel := List.rel_of_pairwise_cons hpairwise (List.mem_cons_self (a := c))
    rw [hc] at hrel
    exact absurd hrel hirrefl

/-- What is found at indices comes in their order. -/
theorem pairwise_map_filterMap_range {β : Type} {find : Nat → Option β} {index : β → Nat} {n : Nat}
    (h : ∀ i b, find i = some b → index b = i) :
    (((List.range n).filterMap find).map index).Pairwise (· < ·) := by
  rw [List.pairwise_map]
  refine List.Pairwise.filterMap find ?_ List.pairwise_lt_range
  intro i j hij b hb c hc
  rw [h i b hb, h j c hc]
  exact hij

/-- In a block that defines every variable once, a variable has one definition. -/
theorem def_unique {ops : List SsaOp} (hssa : (ops.filterMap SsaOp.dst).Nodup) {i j : Nat}
    {op op' : SsaOp} {v : VarId} (hi : ops[i]? = some op) (hj : ops[j]? = some op')
    (hdst : op.dst = some v) (hdst' : op'.dst = some v) : i = j := by
  have hcount : ops.countP (fun op => op.dst == some v) ≤ 1 := by
    rw [← List.count_filterMap]
    exact List.nodup_iff_count_le_one.mp hssa v
  exact Edits.index_unique hcount hi hj (by simp [hdst]) (by simp [hdst'])

/-! ## Groups -/

/-- What a matcher makes sure of. -/
structure FoldGroup.Matched (ops : List SsaOp) (g : FoldGroup) (obj : VarId) : Prop where
  object : ops[g.alloc]?.bind SsaOp.dst = some obj
  writes : ∀ r ∈ g.removed, g.alloc < r ∧ ∃ op, ops[r]? = some op ∧ writtenObject op = some obj
  sorted : g.removed.Pairwise (· < ·)
  nonempty : g.removed ≠ []
  entries : ∀ r ∈ g.entries, r ∈ g.removed

theorem FoldGroup.Matched.lt_length {ops : List SsaOp} {g : FoldGroup} {obj : VarId}
    (h : g.Matched ops obj) {r : Nat} (hr : r ∈ g.removed) : r < ops.length := by
  obtain ⟨-, op, hop, -⟩ := h.writes r hr
  exact (List.getElem?_eq_some_iff.mp hop).1

/-- What all matchers of a block make sure of. -/
structure LiteralPass.Matches (pass : LiteralPass) (ops : List SsaOp) : Prop where
  group : ∀ g ∈ pass.groups ops, ∃ obj, g.Matched ops obj
  disjoint : ∀ g ∈ pass.groups ops, ∀ g' ∈ pass.groups ops, g.alloc = g'.alloc →
    ∀ r ∈ g.removed, r ∈ g'.removed → g = g'
  vars : ∀ g ∈ pass.groups ops, g.Alone (pass.groups ops) →
    ((((pass.rewritten ops)[g.alloc]?.map SsaOp.operands).getD []).tail.filterMap
      SsaOperand.var?) = g.entries.flatMap (movedVars ops)

namespace LiteralPass

variable {inlines : VarId → Prop} {pass : LiteralPass} {ops : List SsaOp}

/-- The fold of a match that is the only one of its allocation. -/
theorem foldOf_of_alone (hmatches : pass.Matches ops) {g : FoldGroup} (hg : g ∈ pass.groups ops)
    (halone : g.Alone (pass.groups ops)) :
    (pass.foldOf ops g).removed = g.removed ∧ (pass.foldOf ops g).entries = g.entries := by
  obtain ⟨obj, hmatched⟩ := hmatches.group g hg
  have hsame : ∀ g' ∈ (pass.groups ops).filter fun g' => g'.alloc = g.alloc, g' = g := by
    intro g' hg'
    obtain ⟨hmem, halloc⟩ := List.mem_filter.mp hg'
    exact halone g' hmem (by simpa using halloc)
  have hmem : g ∈ (pass.groups ops).filter fun g' => g'.alloc = g.alloc :=
    List.mem_filter.mpr ⟨hg, by simp⟩
  constructor
  · have hiff : ∀ r, r ∈ ((pass.groups ops).filter fun g' => g'.alloc = g.alloc).flatMap
        FoldGroup.removed ↔ r ∈ g.removed := by
      intro r
      rw [List.mem_flatMap]
      constructor
      · rintro ⟨g', hg', hr⟩
        rwa [hsame g' hg'] at hr
      · exact fun hr => ⟨g, hmem, hr⟩
    simp only [foldOf, hiff]
    exact filter_range_mem hmatched.sorted fun r hr => hmatched.lt_length hr
  · obtain ⟨last, hlast⟩ : ∃ last, ((pass.groups ops).filter fun g' =>
        g'.alloc = g.alloc).getLast? = some last :=
      ⟨_, List.getLast?_eq_some_getLast (List.ne_nil_of_mem hmem)⟩
    simp only [foldOf, hlast, Option.map_some, Option.getD_some]
    rw [hsame last (List.mem_of_getLast? hlast)]

/-- Where the entries are what goes, the match is the only one of its allocation. -/
theorem alone_of_order (hmatches : pass.Matches ops) {g : FoldGroup} (hg : g ∈ pass.groups ops)
    (horder : (pass.foldOf ops g).entries = (pass.foldOf ops g).removed) :
    g.Alone (pass.groups ops) := by
  have hmem : g ∈ (pass.groups ops).filter fun g' => g'.alloc = g.alloc :=
    List.mem_filter.mpr ⟨hg, by simp⟩
  obtain ⟨last, hlast⟩ : ∃ last, ((pass.groups ops).filter fun g' =>
      g'.alloc = g.alloc).getLast? = some last :=
    ⟨_, List.getLast?_eq_some_getLast (List.ne_nil_of_mem hmem)⟩
  obtain ⟨hlastMem, hlastAlloc⟩ := List.mem_filter.mp (List.mem_of_getLast? hlast)
  simp only [decide_eq_true_eq] at hlastAlloc
  simp only [foldOf, hlast, Option.map_some, Option.getD_some] at horder
  have heq : ∀ g' ∈ pass.groups ops, g'.alloc = g.alloc → g' = last := by
    intro g' hg' halloc
    obtain ⟨obj, hmatched⟩ := hmatches.group g' hg'
    obtain ⟨r, hr⟩ := List.exists_mem_of_ne_nil _ hmatched.nonempty
    have hrange : r ∈ last.entries := by
      rw [horder, List.mem_filter, List.mem_range, decide_eq_true_eq, List.mem_flatMap]
      exact ⟨hmatched.lt_length hr, g', List.mem_filter.mpr ⟨hg', by simpa using halloc⟩, hr⟩
    obtain ⟨obj', hmatched'⟩ := hmatches.group last hlastMem
    exact hmatches.disjoint g' hg' last hlastMem (halloc.trans hlastAlloc.symm) r hr
      (hmatched'.entries r hrange)
  intro g' hg' halloc
  rw [heq g' hg' halloc, heq g hg rfl]

theorem mem_filterMap_var? {v : VarId} {l : List SsaOperand} :
    v ∈ l.filterMap SsaOperand.var? ↔ SsaOperand.var v ∈ l := by
  rw [List.mem_filterMap]
  constructor
  · rintro ⟨o, ho, hv⟩
    cases o <;> simp_all [SsaOperand.var?]
  · exact fun h => ⟨_, h, rfl⟩

/-- Folds keep the order when every match is alone, with available operands and nothing between
that names the object. -/
theorem forall_keepsOrder_iff (hmatches : pass.Matches ops) :
    (∀ f ∈ pass.folds ops, f.KeepsOrder inlines ops) ↔ ∀ g ∈ pass.groups ops,
      (∀ r ∈ g.entries, ∀ v ∈ movedVars ops r, AvailableAt inlines ops g.alloc v) ∧
        QuietUntil ops g.alloc (ops[g.alloc]?.bind SsaOp.dst) g.removed ∧
          g.entries = g.removed ∧ g.Alone (pass.groups ops) := by
  rw [folds, List.forall_mem_map]
  refine forall₂_congr fun g hg => ?_
  have havailable : g.Alone (pass.groups ops) →
      ((∀ v, SsaOperand.var v ∈ (pass.foldOf ops g).operands → AvailableAt inlines ops g.alloc v) ↔
        ∀ r ∈ g.entries, ∀ v ∈ movedVars ops r, AvailableAt inlines ops g.alloc v) := by
    intro halone
    have hvars := hmatches.vars g hg halone
    simp only [foldOf, ← mem_filterMap_var?, hvars, List.mem_flatMap]
    exact ⟨fun h r hr v hv => h v ⟨r, hr, hv⟩, fun h v ⟨r, hr, hv⟩ => h r hr v hv⟩
  constructor
  · intro h
    have halone := alone_of_order hmatches hg h.order
    obtain ⟨hremoved, hentries⟩ := foldOf_of_alone hmatches hg halone
    refine ⟨(havailable halone).mp h.available, ?_, ?_, halone⟩
    · have hquiet := h.quiet
      rwa [hremoved] at hquiet
    · rw [← hremoved, ← hentries]
      exact h.order
  · rintro ⟨hvalues, hquiet, horder, halone⟩
    obtain ⟨hremoved, hentries⟩ := foldOf_of_alone hmatches hg halone
    obtain ⟨obj, hmatched⟩ := hmatches.group g hg
    have hquiet' : QuietUntil ops g.alloc (ops[g.alloc]?.bind SsaOp.dst)
        (pass.foldOf ops g).removed := by rwa [hremoved]
    have horder' : (pass.foldOf ops g).entries = (pass.foldOf ops g).removed := by
      rw [hremoved, hentries]
      exact horder
    refine ⟨(havailable halone).mpr hvalues, hquiet', fun r hr => ?_, horder', ?_⟩
    · rw [hremoved] at hr
      obtain ⟨hlt, op, hop, hwrites⟩ := hmatched.writes r hr
      refine ⟨hlt, op, hop, Option.isSome_of_eq_some hwrites, ?_⟩
      rw [hwrites]
      exact hmatched.object.symm
    · intro j op obj hlt hkept hop hobj hnamed
      rw [horder', List.filter_eq_self]
      intro r hr
      have hle : r ≤ j := by
        by_contra hjr
        exact hquiet' j op obj hlt hkept ⟨r, hr, by omega⟩ hop hobj hnamed
      have hne : r ≠ j := fun heq => hkept (heq ▸ hr)
      exact decide_eq_true (Nat.lt_of_le_of_ne hle hne)

end LiteralPass

end Hermes.Structure
