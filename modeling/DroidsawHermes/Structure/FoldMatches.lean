-- SUMMARY: The matches of the literal folds, and when their literals keep the order.
import DroidsawHermes.Structure.FoldOrder

/-!
# Matches of literal folds

What each of the three matchers makes sure of. What it leaves open is the condition under which
its literals keep the order of the block.
-/

namespace Hermes.Structure

open Decompile

/-! ## Clusters -/

section Clusters

variable {tables : VarId → Option SlotTable} {ops : List SsaOp}

/-- What is known of a folded put. -/
structure SlotPut.Spec (ops : List SsaOp) (i : Nat) (dst : VarId) (table : SlotTable)
    (put : SlotPut) : Prop where
  behind : i < put.index
  op : ∃ op, ops[put.index]? = some op ∧ isSlotPut op = true ∧
    op.operands[0]? = some (.var dst) ∧ op.operands[1]? = some put.value
  bound : put.slot < (table.keys.zip table.values).length
  readable : readableAt ops i put.value = true

theorem spec_of_slotPut {i j : Nat} {dst : VarId} {table : SlotTable} {put : SlotPut}
    (h : slotPut ops i dst table j = some put) : put.index = j ∧ put.Spec ops i dst table := by
  unfold slotPut at h
  split at h
  · cases h
  next op hop =>
  split at h
  · next hput =>
    obtain ⟨hlt, -, hslot, hobj⟩ := hput
    split at h
    · next value name hvalue _ =>
      split at h
      · next slot hfind =>
        split at h
        · next hfits =>
          obtain ⟨⟩ := h
          have hkeys : slot < table.keys.length := (List.findIdx?_eq_some_iff_findIdx_eq.mp hfind).1
          have hvalues : slot < table.values.length := (List.getElem?_eq_some_iff.mp hfits.1).1
          refine ⟨rfl, hlt, ⟨op, hop, hslot, hobj, hvalue⟩, ?_, hfits.2⟩
          rw [List.length_zip]
          exact Nat.lt_min.mpr ⟨hkeys, hvalues⟩
        · cases h
      · cases h
    · cases h
  · cases h

/-- What is known of a cluster. -/
structure ClusterFold.Spec (tables : VarId → Option SlotTable) (ops : List SsaOp)
    (f : ClusterFold) : Prop where
  found : clusterFold tables ops f.bufferIdx = some f
  dst : ops[f.bufferIdx]?.bind SsaOp.dst = some f.dst
  puts : f.puts = slotPuts ops f.bufferIdx f.dst f.table
  nonempty : f.puts ≠ []

theorem spec_of_clusterFold {i : Nat} {f : ClusterFold} (h : clusterFold tables ops i = some f) :
    f.bufferIdx = i ∧ f.Spec tables ops := by
  have hfound := h
  unfold clusterFold at h
  split at h
  · cases h
  next op hop =>
  split at h
  · split at h
    · next dst hdst =>
      split at h
      · next table htable =>
        dsimp only at h
        split at h
        · cases h
        · next hputs =>
          obtain ⟨⟩ := h
          refine ⟨rfl, hfound, ?_, rfl, ?_⟩
          · simp only [hop, Option.bind_some, hdst]
          · simpa using hputs
      · cases h
    · cases h
  · cases h

theorem mem_clusterFolds {f : ClusterFold} (h : f ∈ clusterFolds tables ops) :
    f.Spec tables ops := by
  obtain ⟨i, -, hi⟩ := List.mem_filterMap.mp h
  exact (spec_of_clusterFold hi).2

namespace ClusterFold

variable {f : ClusterFold}

theorem Spec.put (h : f.Spec tables ops) {put : SlotPut} (hput : put ∈ f.puts) :
    put.Spec ops f.bufferIdx f.dst f.table := by
  rw [h.puts] at hput
  obtain ⟨j, -, hj⟩ := List.mem_filterMap.mp hput
  exact (spec_of_slotPut hj).2

theorem Spec.sorted (h : f.Spec tables ops) : (f.puts.map SlotPut.index).Pairwise (· < ·) := by
  rw [h.puts]
  exact pairwise_map_filterMap_range fun j put hput => (spec_of_slotPut hput).1

/-- The last put of a slot. -/
def lastPut (f : ClusterFold) (slot : Nat) : Option SlotPut :=
  f.puts.reverse.find? fun put => put.slot = slot

theorem lastPut_eq_some {slot : Nat} {put : SlotPut} (h : f.lastPut slot = some put) :
    put ∈ f.puts ∧ put.slot = slot :=
  ⟨List.mem_reverse.mp (List.mem_of_find?_eq_some h), by simpa using List.find?_some h⟩

def slotPuts (f : ClusterFold) : List SlotPut :=
  (List.range (f.table.keys.zip f.table.values).length).filterMap f.lastPut

theorem slotEntries_eq : f.slotEntries = f.slotPuts.map SlotPut.index := by
  rw [slotEntries, slotPuts, List.map_filterMap]
  rfl

theorem pairwise_slotPuts : (f.slotPuts.map SlotPut.slot).Pairwise (· < ·) :=
  pairwise_map_filterMap_range fun _ _ h => (lastPut_eq_some h).2

theorem mem_of_mem_slotPuts {put : SlotPut} (h : put ∈ f.slotPuts) : put ∈ f.puts := by
  obtain ⟨slot, -, hslot⟩ := List.mem_filterMap.mp h
  exact (lastPut_eq_some hslot).1

/-- A put is found again from its index. -/
theorem Spec.filterMap_index (h : f.Spec tables ops) {puts : List SlotPut}
    (hputs : ∀ put ∈ puts, put ∈ f.puts) :
    (puts.map SlotPut.index).filterMap (slotPut ops f.bufferIdx f.dst f.table) = puts := by
  induction puts with
  | nil => rfl
  | cons put puts ih =>
    have hput := hputs put List.mem_cons_self
    rw [h.puts] at hput
    obtain ⟨j, -, hj⟩ := List.mem_filterMap.mp hput
    have hindex := (spec_of_slotPut hj).1
    rw [List.map_cons, List.filterMap_cons_some (hindex ▸ hj),
      ih fun p hp => hputs p (List.mem_cons_of_mem _ hp)]

/-- The entries are the puts in their order when the slots increase. -/
theorem Spec.slotEntries_eq_iff (h : f.Spec tables ops) :
    f.slotEntries = f.puts.map SlotPut.index ↔ (f.puts.map SlotPut.slot).Pairwise (· < ·) := by
  rw [slotEntries_eq]
  constructor
  · intro heq
    have hputs : f.slotPuts = f.puts := by
      rw [← h.filterMap_index fun put => mem_of_mem_slotPuts, heq, h.filterMap_index fun _ => id]
    rw [← hputs]
    exact pairwise_slotPuts
  · intro hslots
    have hslotPuts := pairwise_slotPuts (f := f)
    rw [List.pairwise_map] at hslots hslotPuts
    have hunique : ∀ p ∈ f.puts, ∀ q ∈ f.puts, p.slot = q.slot → p = q := by
      intro p hp q hq hslot
      by_contra hne
      have hsymm : Std.Symm fun p q : SlotPut => p.slot ≠ q.slot := ⟨fun _ _ => Ne.symm⟩
      exact (hslots.imp fun {p q} hlt => Nat.ne_of_lt hlt).forall hp hq hne hslot
    have hmem : ∀ put, put ∈ f.slotPuts ↔ put ∈ f.puts := by
      intro put
      refine ⟨mem_of_mem_slotPuts, fun hput => ?_⟩
      obtain ⟨last, hlast⟩ : ∃ last, f.lastPut put.slot = some last := by
        rw [← Option.isSome_iff_exists, lastPut, List.find?_isSome]
        exact ⟨put, List.mem_reverse.mpr hput, by simp⟩
      obtain ⟨hlastMem, hslot⟩ := lastPut_eq_some hlast
      rw [hunique last hlastMem put hput hslot] at hlast
      exact List.mem_filterMap.mpr ⟨put.slot, List.mem_range.mpr (h.put hput).bound, hlast⟩
    have hnodup {puts : List SlotPut} (hputs : puts.Pairwise fun p q => p.slot < q.slot) :
        puts.Nodup := by
      refine hputs.imp fun {p q} hlt heq => ?_
      rw [heq] at hlt
      exact Nat.lt_irrefl _ hlt
    have hputs : f.slotPuts = f.puts :=
      List.Perm.eq_of_pairwise (fun p q _ _ hpq hqp => absurd hpq hqp.asymm) hslotPuts hslots
        ((List.perm_ext_iff_of_nodup (hnodup hslotPuts) (hnodup hslots)).mpr hmem)
    rw [hputs]

theorem Spec.unique {f' : ClusterFold} (h : f.Spec tables ops) (h' : f'.Spec tables ops)
    (hidx : f.bufferIdx = f'.bufferIdx) : f = f' := by
  have hfound := h.found
  rw [hidx, h'.found] at hfound
  exact (Option.some.inj hfound).symm

end ClusterFold

theorem not_isSpreadCall_of_name {op : SsaOp} (h : isCallBuiltin op.name = false) :
    isSpreadCall op = false := by
  simp [isSpreadCall, isBuiltinCall, h]

theorem isCallBuiltin_of_isSlotPut {op : SsaOp} (h : isSlotPut op = true) :
    isCallBuiltin op.name = false := by
  simp only [isSlotPut, Bool.or_eq_true, decide_eq_true_eq] at h
  rcases h with h | h <;> rw [h] <;> decide

namespace SlotPut.Spec

variable {i : Nat} {dst : VarId} {table : SlotTable} {put : SlotPut}

theorem writes (h : put.Spec ops i dst table) :
    ∃ op, ops[put.index]? = some op ∧ writtenObject op = some dst := by
  obtain ⟨op, hop, hslot, hobj, -⟩ := h.op
  refine ⟨op, hop, ?_⟩
  rw [writtenObject, not_isSpreadCall_of_name (isCallBuiltin_of_isSlotPut hslot),
    if_neg Bool.false_ne_true, if_pos (.inl hslot), hobj]
  rfl

theorem movedVars_eq (h : put.Spec ops i dst table) :
    movedVars ops put.index = put.value.var?.toList := by
  obtain ⟨op, hop, hslot, -, hvalue⟩ := h.op
  rw [movedVars, hop, Option.bind_some, movedOperand,
    not_isSpreadCall_of_name (isCallBuiltin_of_isSlotPut hslot), if_neg Bool.false_ne_true,
    hvalue, Option.bind_some]

/-- Of a value that the matcher has found readable, only what a late definition reads is open. -/
theorem available_iff {inlines : VarId → Prop} (hssa : (ops.filterMap SsaOp.dst).Nodup)
    (h : put.Spec ops i dst table) {v : VarId} (hv : put.value = .var v) :
    AvailableAt inlines ops i v ↔ LateAvailable inlines ops i v := by
  constructor
  · intro havailable d op hop hdst hle
    cases havailable with
    | before hbefore =>
      have hlt := hbefore d op hop hdst
      omega
    | inlined hop' hdst' hne _ hinlines hreads =>
      obtain rfl := def_unique hssa hop hop' hdst hdst'
      obtain rfl := Option.some.inj (hop.symm.trans hop')
      exact ⟨hne, hinlines, hreads⟩
  · intro hlate
    by_cases hdef : ∃ d op, ops[d]? = some op ∧ op.dst = some v ∧ i ≤ d
    · obtain ⟨d, op, hop, hdst, hle⟩ := hdef
      obtain ⟨hne, hinlines, hreads⟩ := hlate d op hop hdst hle
      have hreadable := h.readable
      obtain ⟨d', hd'⟩ : ∃ d', defIndex ops v = some d' := by
        rw [← Option.isSome_iff_exists, defIndex, List.findIdx?_isSome, List.any_eq_true]
        exact ⟨op, List.mem_of_getElem? hop, by simp [hdst]⟩
      obtain ⟨hlt, hpred, -⟩ := List.findIdx?_eq_some_iff_getElem.mp hd'
      have heq : d' = d := def_unique hssa (List.getElem?_eq_getElem hlt) hop (by simpa using hpred)
        hdst
      rw [hv, readableAt, hd'] at hreadable
      simp only [heq, hop, Option.any_some, Bool.or_eq_true, decide_eq_true_eq] at hreadable
      rcases hreadable with hlt | hpure
      · omega
      · exact .inlined hop hdst hne hpure hinlines hreads
    · refine .before fun d op hop hdst => ?_
      by_contra hge
      exact hdef ⟨d, op, hop, hdst, by omega⟩

end SlotPut.Spec

namespace ClusterFold

variable {f : ClusterFold}

theorem Spec.movedVars_eq (h : f.Spec tables ops) (slot : Nat) (text : String) :
    (f.slotValue slot text).var?.toList =
      ((f.lastPut slot).map SlotPut.index).toList.flatMap (movedVars ops) := by
  rw [slotValue, ← lastPut]
  cases hlast : f.lastPut slot with
  | none => rfl
  | some put => simp [(h.put (lastPut_eq_some hlast).1).movedVars_eq]

/-- The variables of the literal are those that the entries bring. -/
theorem Spec.vars (h : f.Spec tables ops) :
    f.operands.tail.filterMap SsaOperand.var? = f.slotEntries.flatMap (movedVars ops) := by
  have hpair (slot : Nat) (key text : String) :
      [SsaOperand.resolvedString key, f.slotValue slot text].filterMap SsaOperand.var? =
        ((f.lastPut slot).map SlotPut.index).toList.flatMap (movedVars ops) := by
    rw [← h.movedVars_eq slot text]
    cases (f.slotValue slot text) <;> rfl
  have hrange : List.range (f.table.keys.zip f.table.values).length =
      (f.table.keys.zip f.table.values).zipIdx.map Prod.snd := by
    rw [List.zipIdx_map_snd, List.range_eq_range']
  rw [operands, List.tail_cons, List.filterMap_flatMap, slotEntries,
    List.filterMap_eq_flatMap_toList, List.flatMap_assoc, hrange, List.flatMap_map]
  simp only [hpair]
  rfl

end ClusterFold

theorem matches_clusters :
    (LiteralPass.clusters tables).Matches ops where
  group := by
    intro g hg
    obtain ⟨f, hf, rfl⟩ := List.mem_map.mp hg
    have hspec := mem_clusterFolds hf
    refine ⟨f.dst, hspec.dst, fun r hr => ?_, hspec.sorted,
      by simpa [ClusterFold.group] using hspec.nonempty, fun r hr => ?_⟩
    · obtain ⟨put, hput, rfl⟩ := List.mem_map.mp hr
      exact ⟨(hspec.put hput).behind, (hspec.put hput).writes⟩
    · rw [ClusterFold.group, ClusterFold.slotEntries_eq] at hr
      obtain ⟨put, hput, rfl⟩ := List.mem_map.mp hr
      exact List.mem_map.mpr ⟨put, ClusterFold.mem_of_mem_slotPuts hput, rfl⟩
  disjoint := by
    intro g hg g' hg' halloc _ _ _
    obtain ⟨f, hf, rfl⟩ := List.mem_map.mp hg
    obtain ⟨f', hf', rfl⟩ := List.mem_map.mp hg'
    rw [(mem_clusterFolds hf).unique (mem_clusterFolds hf') halloc]
  vars := by
    intro g hg _
    obtain ⟨f, hf, rfl⟩ := List.mem_map.mp hg
    have hspec := mem_clusterFolds hf
    obtain ⟨op, hop⟩ : ∃ op, ops[f.bufferIdx]? = some op := by
      cases hop : ops[f.bufferIdx]? with
      | none => exact absurd hspec.dst (by simp [hop])
      | some op => exact ⟨op, rfl⟩
    obtain ⟨f', hf'⟩ : ∃ f', (clusterFolds tables ops).find? (fun f' =>
        f'.bufferIdx = f.bufferIdx) = some f' := by
      rw [← Option.isSome_iff_exists, List.find?_isSome]
      exact ⟨f, hf, by simp⟩
    have heq : f' = f := (mem_clusterFolds (List.mem_of_find?_eq_some hf')).unique hspec
      (by simpa using List.find?_some hf')
    subst heq
    have hrewritten : ((LiteralPass.clusters tables).rewritten ops)[f'.bufferIdx]? =
        some { op with name := "HermesObjectLit", operands := f'.operands } := by
      simp [LiteralPass.rewritten, List.getElem?_map, List.getElem?_zipIdx, hop, hf']
    show ((((LiteralPass.clusters tables).rewritten ops)[f'.bufferIdx]?.map
      SsaOp.operands).getD []).tail.filterMap SsaOperand.var? = _
    rw [hrewritten]
    exact hspec.vars

end Clusters

/-! ## Array spreads -/

section ArraySpreads

variable {uses : VarId → Nat} {ops : List SsaOp}

/-- What is known of the match of a spread. -/
structure ArrayCluster.Spec (uses : VarId → Nat) (ops : List SsaOp) (c : ArrayCluster)
    (target index : VarId) : Prop where
  found : arrayCluster uses ops c.spreadIdx = some c
  alloc : ∃ op text, ops[c.prefixIdx]? = some op ∧ op.dst = some target ∧
    op.operands[1]? = some (.resolvedString text)
  behind : c.prefixIdx < c.spreadIdx
  spread : ∃ op, ops[c.spreadIdx]? = some op ∧ isBuiltinCall op isArraySpread = true ∧
    op.dst = some index ∧ op.operands[3]? = some (.var target) ∧ op.operands[4]? = some c.source
  next : c.spreadIdx < c.defineIdx
  define : ∃ op, ops[c.defineIdx]? = some op ∧ op.name ∈ defineNames ∧
    op.operands[0]? = some (.var target) ∧ op.operands[2]? = some (.var index) ∧
      op.operands[1]? = some c.trailing

theorem spec_of_arrayPrefix {i j : Nat} {target : VarId} (h : arrayPrefix ops i target = some j) :
    j < i ∧ ∃ op text, ops[j]? = some op ∧ op.dst = some target ∧
      op.operands[1]? = some (.resolvedString text) := by
  have hlt : j < i := by simpa using List.mem_of_find?_eq_some h
  have hpred := List.find?_some h
  simp only [Option.any_eq_true, Bool.and_eq_true, decide_eq_true_eq] at hpred
  obtain ⟨op, hop, ⟨hdst, -⟩, hresolved⟩ := hpred
  rw [isResolved] at hresolved
  split at hresolved
  · next text htext => exact ⟨hlt, op, text, hop, hdst, htext⟩
  · cases hresolved

theorem spec_of_arrayDefine {i k : Nat} {target index : VarId}
    (h : arrayDefine ops i target index = some k) :
    i < k ∧ ∃ op, ops[k]? = some op ∧ op.name ∈ defineNames ∧
      op.operands[0]? = some (.var target) ∧ op.operands[2]? = some (.var index) := by
  obtain ⟨hfind, hdefines⟩ := Option.filter_eq_some_iff.mp h
  have hpred := List.find?_some hfind
  simp only [Option.any_eq_true, Bool.and_eq_true, decide_eq_true_eq] at hpred
  obtain ⟨hlt, op, hop, hname, -⟩ := hpred
  simp only [hop, Option.any_some, definesAt, Bool.and_eq_true, decide_eq_true_eq] at hdefines
  exact ⟨hlt, op, hop, by simpa using hname, hdefines.1, hdefines.2⟩

theorem spec_of_arrayCluster {i : Nat} {c : ArrayCluster} (h : arrayCluster uses ops i = some c) :
    c.spreadIdx = i ∧ ∃ target index, c.Spec uses ops target index := by
  have hfound := h
  simp only [arrayCluster, Option.bind_eq_bind, Option.bind_eq_some_iff, Option.guard_eq_some',
    exists_const] at h
  obtain ⟨op, hop, hspread, -, operand, htarget, h⟩ := h
  split at h
  · next target =>
    simp only [Option.bind_eq_some_iff, Option.guard_eq_some', exists_const] at h
    obtain ⟨index, hindex, -, prefixIdx, hprefix, defineIdx, hdefine, source, hsource, define, hat,
      trailing, htrailing, h⟩ := h
    obtain ⟨⟩ := h
    obtain ⟨hbehind, halloc⟩ := spec_of_arrayPrefix hprefix
    obtain ⟨hnext, op', hop', hname, hobj, hkey⟩ := spec_of_arrayDefine hdefine
    obtain rfl := Option.some.inj (hop'.symm.trans hat)
    exact ⟨rfl, target, index, hfound, halloc, hbehind,
      ⟨op, hop, hspread, hindex, htarget, hsource⟩, hnext, _, hop', hname, hobj, hkey, htrailing⟩
  · cases h

theorem mem_arrayClusters {c : ArrayCluster} (h : c ∈ arrayClusters uses ops) :
    ∃ target index, c.Spec uses ops target index := by
  obtain ⟨i, -, hi⟩ := List.mem_filterMap.mp h
  exact (spec_of_arrayCluster hi).2

theorem isSpreadCall_of_isArraySpread {op : SsaOp} (h : isBuiltinCall op isArraySpread = true) :
    isSpreadCall op = true := by
  rw [isSpreadCall, h, Bool.true_or]

theorem isCallBuiltin_of_mem_defineNames {name : String} (h : name ∈ defineNames) :
    isCallBuiltin name = false := by
  revert h
  simp only [defineNames, List.mem_cons, List.not_mem_nil, or_false]
  rintro (rfl | rfl | rfl) <;> decide

namespace ArrayCluster

variable {c c' : ArrayCluster} {target index target' index' : VarId}

theorem Spec.unique (h : c.Spec uses ops target index) (h' : c'.Spec uses ops target' index')
    (hidx : c.spreadIdx = c'.spreadIdx) : c = c' := by
  have hfound := h.found
  rw [hidx, h'.found] at hfound
  exact (Option.some.inj hfound).symm

theorem Spec.spreadIdx_ne_defineIdx (h : c.Spec uses ops target index)
    (h' : c'.Spec uses ops target' index') : c.spreadIdx ≠ c'.defineIdx := by
  intro heq
  obtain ⟨op, hop, hspread, -⟩ := h.spread
  obtain ⟨op', hop', hname, -⟩ := h'.define
  rw [heq, hop'] at hop
  obtain rfl := Option.some.inj hop
  rw [isBuiltinCall, isCallBuiltin_of_mem_defineNames hname] at hspread
  cases hspread

/-- Matches that share a define operation share the index that it writes at, and so the spread. -/
theorem Spec.unique_of_defineIdx (hssa : (ops.filterMap SsaOp.dst).Nodup)
    (h : c.Spec uses ops target index) (h' : c'.Spec uses ops target' index')
    (hidx : c.defineIdx = c'.defineIdx) : c = c' := by
  obtain ⟨op, hop, -, -, hkey, -⟩ := h.define
  obtain ⟨op', hop', -, -, hkey', -⟩ := h'.define
  rw [hidx, hop'] at hop
  obtain rfl := Option.some.inj hop
  have hindex : index = index' := by simpa [hkey'] using hkey.symm
  subst hindex
  obtain ⟨spread, hspread, -, hdst, -⟩ := h.spread
  obtain ⟨spread', hspread', -, hdst', -⟩ := h'.spread
  exact h.unique h' (def_unique hssa hspread hspread' hdst hdst')

theorem Spec.writes (h : c.Spec uses ops target index) :
    ∀ r ∈ [c.spreadIdx, c.defineIdx], c.prefixIdx < r ∧
      ∃ op, ops[r]? = some op ∧ writtenObject op = some target := by
  intro r hr
  simp only [List.mem_cons, List.not_mem_nil, or_false] at hr
  rcases hr with rfl | rfl
  · obtain ⟨op, hop, hspread, -, htarget, -⟩ := h.spread
    refine ⟨h.behind, op, hop, ?_⟩
    rw [writtenObject, if_pos (isSpreadCall_of_isArraySpread hspread), htarget]
    rfl
  · obtain ⟨op, hop, hname, htarget, -⟩ := h.define
    refine ⟨h.behind.trans h.next, op, hop, ?_⟩
    rw [writtenObject, not_isSpreadCall_of_name (isCallBuiltin_of_mem_defineNames hname),
      if_neg Bool.false_ne_true, if_pos (.inr (by simp [hname])), htarget]
    rfl

theorem Spec.movedVars_spread (h : c.Spec uses ops target index) :
    movedVars ops c.spreadIdx = c.source.var?.toList := by
  obtain ⟨op, hop, hspread, -, -, hsource⟩ := h.spread
  rw [movedVars, hop, Option.bind_some, movedOperand,
    if_pos (isSpreadCall_of_isArraySpread hspread), hsource, Option.bind_some]

theorem Spec.movedVars_define (h : c.Spec uses ops target index) :
    movedVars ops c.defineIdx = c.trailing.var?.toList := by
  obtain ⟨op, hop, hname, -, -, htrailing⟩ := h.define
  rw [movedVars, hop, Option.bind_some, movedOperand,
    not_isSpreadCall_of_name (isCallBuiltin_of_mem_defineNames hname), if_neg Bool.false_ne_true,
    htrailing, Option.bind_some]

end ArrayCluster

theorem matches_arraySpreads (hssa : (ops.filterMap SsaOp.dst).Nodup) :
    (LiteralPass.arraySpreads uses).Matches ops where
  group := by
    intro g hg
    obtain ⟨c, hc, rfl⟩ := List.mem_map.mp hg
    obtain ⟨target, index, hspec⟩ := mem_arrayClusters hc
    obtain ⟨op, text, hop, hdst, -⟩ := hspec.alloc
    refine ⟨target, ?_, hspec.writes, ?_, List.cons_ne_nil _ _, fun r hr => hr⟩
    · show ops[c.prefixIdx]?.bind SsaOp.dst = some target
      rw [hop, Option.bind_some, hdst]
    · simpa [ArrayCluster.group] using hspec.next
  disjoint := by
    intro g hg g' hg' _ r hr hr'
    obtain ⟨c, hc, rfl⟩ := List.mem_map.mp hg
    obtain ⟨c', hc', rfl⟩ := List.mem_map.mp hg'
    obtain ⟨target, index, hspec⟩ := mem_arrayClusters hc
    obtain ⟨target', index', hspec'⟩ := mem_arrayClusters hc'
    simp only [ArrayCluster.group, List.mem_cons, List.not_mem_nil, or_false] at hr hr'
    rcases hr with rfl | rfl <;> rcases hr' with heq | heq
    · rw [hspec.unique hspec' heq]
    · exact absurd heq (hspec.spreadIdx_ne_defineIdx hspec')
    · exact absurd heq.symm (hspec'.spreadIdx_ne_defineIdx hspec)
    · rw [hspec.unique_of_defineIdx hssa hspec' heq]
  vars := by
    intro g hg halone
    obtain ⟨c, hc, rfl⟩ := List.mem_map.mp hg
    obtain ⟨target, index, hspec⟩ := mem_arrayClusters hc
    obtain ⟨op, text, hop, -, htext⟩ := hspec.alloc
    obtain ⟨c', hc'⟩ : ∃ c', (arrayClusters uses ops).reverse.find? (fun c' =>
        c'.prefixIdx = c.prefixIdx) = some c' := by
      rw [← Option.isSome_iff_exists, List.find?_isSome]
      exact ⟨c, List.mem_reverse.mpr hc, by simp⟩
    have hmem' := List.mem_reverse.mp (List.mem_of_find?_eq_some hc')
    obtain ⟨target', index', hspec'⟩ := mem_arrayClusters hmem'
    have halloc : c'.prefixIdx = c.prefixIdx := by simpa using List.find?_some hc'
    have hgroup := halone c'.group (List.mem_map.mpr ⟨c', hmem', rfl⟩) halloc
    obtain rfl : c' = c := by
      refine hspec'.unique hspec ?_
      have hremoved := congrArg FoldGroup.removed hgroup
      simp only [ArrayCluster.group, List.cons.injEq] at hremoved
      exact hremoved.1
    have hrewritten : ((LiteralPass.arraySpreads uses).rewritten ops)[c'.prefixIdx]? =
        some { op with
          name := "HermesArraySpreadLit"
          operands := [.dstPlaceholder, .resolvedString text, c'.source, c'.trailing] } := by
      simp [LiteralPass.rewritten, List.getElem?_map, List.getElem?_zipIdx, hop, hc', htext]
    show ((((LiteralPass.arraySpreads uses).rewritten ops)[c'.prefixIdx]?.map
      SsaOp.operands).getD []).tail.filterMap SsaOperand.var? =
        [c'.spreadIdx, c'.defineIdx].flatMap (movedVars ops)
    rw [hrewritten]
    simp only [List.flatMap_cons, List.flatMap_nil, List.append_nil, hspec.movedVars_spread,
      hspec.movedVars_define]
    cases c'.source <;> cases c'.trailing <;> rfl

end ArraySpreads

/-! ## Object spreads -/

section ObjectSpreads

variable {uses : VarId → Nat} {ops : List SsaOp} {target : VarId} {consumed : List Nat}

theorem mem_extendCluster {n : Nat} {l : List SsaOp} {p : Nat × ObjectSpreadEntry}
    (h : p ∈ extendCluster target consumed n l) :
    p.1 ∉ consumed ∧ ∃ k op, p.1 = n + k ∧ l[k]? = some op ∧ clusterStep target op = .add p.2 := by
  fun_induction extendCluster target consumed n l with
  | case1 => cases h
  | case2 => cases h
  | case3 n op ops hfresh entry hstep ih =>
    rcases List.mem_cons.mp h with rfl | hrest
    · exact ⟨hfresh, 0, op, rfl, rfl, hstep⟩
    · obtain ⟨hp, k, op', hk, hop', hstep'⟩ := ih hrest
      exact ⟨hp, k + 1, op', by omega, hop', hstep'⟩
  | case4 => cases h
  | case5 n op ops _ _ ih =>
    obtain ⟨hp, k, op', hk, hop', hstep'⟩ := ih h
    exact ⟨hp, k + 1, op', by omega, hop', hstep'⟩

theorem pairwise_extendCluster (n : Nat) (l : List SsaOp) :
    ((extendCluster target consumed n l).map Prod.fst).Pairwise (· < ·) := by
  fun_induction extendCluster target consumed n l with
  | case1 => exact .nil
  | case2 => exact .nil
  | case3 n op ops _ entry _ ih =>
    refine List.pairwise_cons.mpr ⟨fun r hr => ?_, ih⟩
    obtain ⟨p, hp, rfl⟩ := List.mem_map.mp hr
    obtain ⟨-, k, -, hk, -⟩ := mem_extendCluster hp
    show n < p.1
    omega
  | case4 => exact .nil
  | case5 _ _ _ _ _ ih => exact ih

/-- What the walk passes by on its way to an entry is skipped. -/
theorem skip_extendCluster {n k : Nat} {l : List SsaOp} {op : SsaOp} (hop : l[k]? = some op)
    (hkept : n + k ∉ (extendCluster target consumed n l).map Prod.fst)
    (hlater : ∃ r ∈ (extendCluster target consumed n l).map Prod.fst, n + k < r) :
    clusterStep target op = .skip := by
  fun_induction extendCluster target consumed n l generalizing k with
  | case1 => cases hop
  | case2 => simp at hlater
  | case3 n first ops _ entry _ ih =>
    simp only [List.map_cons, List.mem_cons, not_or, exists_eq_or_imp] at hkept hlater
    cases k with
    | zero => exact absurd rfl hkept.1
    | succ k =>
      have hshift : n + (k + 1) = n + 1 + k := by omega
      rw [hshift] at hkept hlater
      refine ih hop hkept.2 (hlater.resolve_left fun hlt => ?_)
      omega
  | case4 => simp at hlater
  | case5 n first ops _ hskip ih =>
    cases k with
    | zero =>
      obtain rfl := Option.some.inj hop
      exact hskip
    | succ k =>
      have hshift : n + (k + 1) = n + 1 + k := by omega
      rw [hshift] at hkept hlater
      exact ih hop hkept hlater

theorem isCallBuiltin_of_mem_putNames {name : String} (h : name ∈ putByIndexNames ++ putByIdNames) :
    isCallBuiltin name = false := by
  revert h
  simp only [putByIndexNames, putByIdNames, List.cons_append, List.nil_append, List.mem_cons,
    List.not_mem_nil, or_false]
  rintro (rfl | rfl | rfl | rfl | rfl | rfl | rfl) <;> decide

/-- An operation that becomes an entry writes to the target what the entry holds. -/
structure AddsEntry (target : VarId) (op : SsaOp) (entry : ObjectSpreadEntry) : Prop where
  writes : writtenObject op = some target
  vars : (pushObjectSpreadEntry entry).filterMap SsaOperand.var? =
    ((movedOperand op).bind SsaOperand.var?).toList

theorem addsEntry_of_put {op : SsaOp} {entry : ObjectSpreadEntry} {value : SsaOperand}
    (hname : op.name ∈ putByIndexNames ++ putByIdNames)
    (htarget : op.operands[0]? = some (.var target)) (hvalue : op.operands[1]? = some value)
    (hentry : ∃ key, entry = .keyVal key value) : AddsEntry target op entry := by
  obtain ⟨key, rfl⟩ := hentry
  have hspread := not_isSpreadCall_of_name (isCallBuiltin_of_mem_putNames hname)
  constructor
  · rw [writtenObject, hspread, if_neg Bool.false_ne_true, if_pos, htarget]
    · rfl
    · rw [List.append_assoc]
      exact .inr (List.mem_append_right _ hname)
  · rw [movedOperand, hspread, if_neg Bool.false_ne_true, hvalue]
    cases value <;> rfl

theorem addsEntry_of_clusterStep {op : SsaOp} {entry : ObjectSpreadEntry}
    (h : clusterStep target op = .add entry) : AddsEntry target op entry := by
  unfold clusterStep at h
  split at h
  · next hcopy =>
    obtain ⟨hbuiltin, htarget⟩ := hcopy
    unfold copyStepAt at h
    split at h
    · next source hsource =>
      obtain ⟨⟩ := h
      have hspread : isSpreadCall op = true := by rw [isSpreadCall, hbuiltin, Bool.or_true]
      constructor
      · rw [writtenObject, if_pos hspread, htarget]
        rfl
      · rw [movedOperand, if_pos hspread, hsource]
        cases source <;> rfl
    · cases h
  split at h
  · next hput =>
    obtain ⟨hname, htarget⟩ := hput
    unfold putByIndexStep at h
    split at h
    · next hvalue _ =>
      obtain ⟨⟩ := h
      exact addsEntry_of_put (List.mem_append_left _ hname) htarget hvalue ⟨_, rfl⟩
    · cases h
  split at h
  · next hput =>
    obtain ⟨hname, htarget⟩ := hput
    unfold putByIdStep at h
    split at h
    · next hvalue _ =>
      obtain ⟨⟩ := h
      exact addsEntry_of_put (List.mem_append_right _ hname) htarget hvalue ⟨_, rfl⟩
    · cases h
  split at h <;> cases h

theorem not_mem_of_clusterStep {op : SsaOp} (h : clusterStep target op = .skip) :
    SsaOperand.var target ∉ op.operands := by
  unfold clusterStep at h
  split at h
  · unfold copyStepAt at h
    split at h <;> cases h
  split at h
  · unfold putByIndexStep at h
    split at h <;> cases h
  split at h
  · unfold putByIdStep at h
    split at h <;> cases h
  split at h
  · cases h
  · next hnamed => exact fun hmem => hnamed (.inr hmem)

namespace ObjectCluster

def indices (c : ObjectCluster) : List Nat := c.entries.map Prod.fst

/-- What is known of a cluster. -/
structure Spec (ops : List SsaOp) (c : ObjectCluster) (target : VarId) : Prop where
  alloc : ∃ op, ops[c.allocIdx]? = some op ∧ op.dst = some target
  behind : ∀ r ∈ c.indices, c.allocIdx < r
  sorted : c.indices.Pairwise (· < ·)
  nonempty : c.indices ≠ []
  adds : ∀ p ∈ c.entries, ∃ op, ops[p.1]? = some op ∧ AddsEntry target op p.2
  skips : ∀ j op, ops[j]? = some op → (∃ r ∈ c.indices.take 1, r < j) → j ∉ c.indices →
    (∃ r ∈ c.indices, j < r) → SsaOperand.var target ∉ op.operands

end ObjectCluster

theorem spec_of_objectAlloc {i j : Nat} (h : objectAlloc ops i target = some j) :
    j < i ∧ ∃ op, ops[j]? = some op ∧ op.dst = some target := by
  obtain ⟨hfind, -⟩ := Option.filter_eq_some_iff.mp h
  have hlt : j < i := by simpa using List.mem_of_find?_eq_some hfind
  have hpred := List.find?_some hfind
  simp only [Option.any_eq_true, decide_eq_true_eq] at hpred
  exact ⟨hlt, hpred⟩

theorem spec_of_objectCluster {i : Nat} {c : ObjectCluster}
    (h : objectCluster uses ops consumed i = some c) :
    (∀ r ∈ c.indices, r ∉ consumed) ∧ ∃ target, c.Spec ops target := by
  simp only [objectCluster, Option.bind_eq_bind, Option.bind_eq_some_iff, Option.guard_eq_some',
    exists_const] at h
  obtain ⟨hfresh, op, hop, hcopy, operand, htarget, h⟩ := h
  split at h
  · next target =>
    simp only [Option.bind_eq_some_iff] at h
    obtain ⟨operand, hsource, h⟩ := h
    split at h
    · next source =>
      simp only [Option.bind_eq_some_iff, Option.guard_eq_some', exists_const] at h
      obtain ⟨allocIdx, halloc, -, h⟩ := h
      obtain ⟨⟩ := h
      obtain ⟨hlt, hdst⟩ := spec_of_objectAlloc halloc
      have hstep : clusterStep target op = .add (.spread (.var source)) := by
        rw [clusterStep, if_pos ⟨hcopy, htarget⟩, copyStepAt, hsource]
      have hbehind : ∀ p ∈ extendCluster target consumed (i + 1) (ops.drop (i + 1)), i < p.1 := by
        intro p hp
        obtain ⟨-, k, -, hk, -⟩ := mem_extendCluster hp
        omega
      refine ⟨?_, target, hdst, ?_, ?_, List.cons_ne_nil _ _, ?_, ?_⟩
      · intro r hr
        rcases List.mem_cons.mp hr with rfl | hrest
        · exact hfresh
        · obtain ⟨p, hp, rfl⟩ := List.mem_map.mp hrest
          exact (mem_extendCluster hp).1
      · intro r hr
        rcases List.mem_cons.mp hr with rfl | hrest
        · exact hlt
        · obtain ⟨p, hp, rfl⟩ := List.mem_map.mp hrest
          exact hlt.trans (hbehind p hp)
      · refine List.pairwise_cons.mpr ⟨fun r hr => ?_, pairwise_extendCluster _ _⟩
        obtain ⟨p, hp, rfl⟩ := List.mem_map.mp hr
        exact hbehind p hp
      · intro p hp
        rcases List.mem_cons.mp hp with rfl | hrest
        · exact ⟨op, hop, addsEntry_of_clusterStep hstep⟩
        · obtain ⟨-, k, op', hk, hop', hstep'⟩ := mem_extendCluster hrest
          rw [List.getElem?_drop, ← hk] at hop'
          exact ⟨op', hop', addsEntry_of_clusterStep hstep'⟩
      · rintro j op' hop' ⟨r, hr, hrj⟩ hkept ⟨later, hlater, hjlater⟩
        obtain rfl : r = i := by simpa [ObjectCluster.indices] using hr
        obtain ⟨k, rfl⟩ : ∃ k, j = r + 1 + k := ⟨j - (r + 1), by omega⟩
        simp only [ObjectCluster.indices, List.map_cons, List.mem_cons, not_or] at hkept hlater
        refine not_mem_of_clusterStep (skip_extendCluster (n := r + 1) (k := k) ?_ hkept.2
          ⟨later, hlater.resolve_left (by omega), hjlater⟩)
        rw [List.getElem?_drop]
        exact hop'
    · cases h
  · cases h

theorem spec_of_objectClusters (uses : VarId → Nat) (ops : List SsaOp) :
    (∀ c ∈ objectClusters uses ops, ∃ target, c.Spec ops target) ∧
      (objectClusters uses ops).Pairwise fun c c' => c.indices.Disjoint c'.indices := by
  rw [objectClusters]
  refine List.foldlRecOn _ _
    (motive := fun clusters : List ObjectCluster =>
      (∀ c ∈ clusters, ∃ target, c.Spec ops target) ∧
        clusters.Pairwise fun c c' => c.indices.Disjoint c'.indices)
    ⟨by simp, .nil⟩ ?_
  rintro clusters ⟨hspec, hdisjoint⟩ i -
  dsimp only
  cases hcluster : objectCluster uses ops
      (clusters.flatMap fun c => c.entries.map Prod.fst) i with
  | none => simpa using ⟨hspec, hdisjoint⟩
  | some c =>
    obtain ⟨hfresh, hc⟩ := spec_of_objectCluster hcluster
    refine ⟨fun c' hc' => ?_, ?_⟩
    · rcases List.mem_append.mp hc' with hmem | hmem
      · exact hspec c' hmem
      · obtain rfl : c' = c := by simpa using hmem
        exact hc
    · refine List.pairwise_append.mpr ⟨hdisjoint, List.pairwise_singleton _ _, ?_⟩
      intro c' hc' d hd r hr hr'
      obtain rfl : d = c := by simpa using hd
      exact hfresh r hr' (List.mem_flatMap.mpr ⟨c', hc', hr⟩)

theorem vars_of_prefixEntries {pairs : List String} {entries : List ObjectSpreadEntry}
    (h : prefixEntries pairs = some entries) :
    (entries.flatMap pushObjectSpreadEntry).filterMap SsaOperand.var? = [] := by
  induction pairs generalizing entries with
  | nil =>
    obtain ⟨⟩ := h
    rfl
  | cons pair pairs ih =>
    obtain ⟨entry, hentry, hrest⟩ := Option.bind_eq_some_iff.mp h
    obtain ⟨rest, hpairs, rfl⟩ := Option.map_eq_some_iff.mp hrest
    obtain ⟨parts, -, rfl⟩ := Option.map_eq_some_iff.mp hentry
    rw [List.flatMap_cons, List.filterMap_append, ih hpairs]
    rfl

/-- What the allocation had as its entries are texts. -/
theorem vars_of_objectBufferPrefixEntries (op : SsaOp) :
    (((objectBufferPrefixEntries op).getD []).flatMap pushObjectSpreadEntry).filterMap
      SsaOperand.var? = [] := by
  unfold objectBufferPrefixEntries
  split
  · split
    · next literal _ =>
      cases hinner : insideBraces literal.toList with
      | none => rfl
      | some inner =>
        rw [Option.bind_some]
        split
        · rfl
        · cases hentries : prefixEntries ((String.ofList inner).splitOn ", ") with
          | none => rfl
          | some entries => exact vars_of_prefixEntries hentries
    · rfl
  · rfl

namespace ObjectCluster

variable {c : ObjectCluster}

def literal (c : ObjectCluster) (op : SsaOp) : SsaOp :=
  { op with
    name := "HermesObjectSpreadLit"
    operands := .dstPlaceholder ::
      ((objectBufferPrefixEntries op).getD [] ++ c.entries.map Prod.snd).flatMap
        pushObjectSpreadEntry }

/-- An operation is rewritten by the clusters of its index. -/
theorem getElem?_foldl_apply (clusters : List ObjectCluster) (ops : List SsaOp) (i : Nat) :
    (clusters.foldl ObjectCluster.apply ops)[i]? = ops[i]?.map fun op =>
      (clusters.filter fun c => c.allocIdx = i).foldl (fun op c => c.literal op) op := by
  induction clusters generalizing ops with
  | nil => simp
  | cons c clusters ih =>
    have happly : (c.apply ops)[i]? = ops[i]?.map fun op =>
        if c.allocIdx = i then c.literal op else op := by
      rw [ObjectCluster.apply, List.getElem?_modify]
      rfl
    rw [List.foldl_cons, ih, happly, Option.map_map]
    congr 1
    funext op
    by_cases hidx : c.allocIdx = i
    · simp [hidx]
    · simp [hidx]

theorem Spec.vars (h : c.Spec ops target) (op : SsaOp) :
    (c.literal op).operands.tail.filterMap SsaOperand.var? =
      c.indices.flatMap (movedVars ops) := by
  have hentries : ((c.entries.map Prod.snd).flatMap pushObjectSpreadEntry).filterMap
      SsaOperand.var? = c.indices.flatMap (movedVars ops) := by
    rw [indices, List.filterMap_flatMap, List.flatMap_map, List.flatMap_map]
    refine List.flatMap_congr fun p hp => ?_
    obtain ⟨op, hop, hadds⟩ := h.adds p hp
    rw [hadds.vars, movedVars, hop, Option.bind_some]
  rw [literal, List.tail_cons, List.flatMap_append, List.filterMap_append,
    vars_of_objectBufferPrefixEntries, List.nil_append, hentries]

/-- Behind the first copy, a cluster is quiet by its matcher. -/
theorem Spec.quiet_iff (h : c.Spec ops target) :
    QuietUntil ops c.allocIdx (some target) c.indices ↔
      QuietUntil ops c.allocIdx (some target) (c.indices.take 1) := by
  obtain ⟨first, rest, hindices⟩ := List.exists_cons_of_ne_nil h.nonempty
  have hsorted := h.sorted
  have hskips := h.skips
  rw [hindices] at hskips hsorted ⊢
  simp only [List.take_succ_cons, List.take_zero] at hskips ⊢
  have hfirst : ∀ r ∈ rest, first < r := fun r hr => List.rel_of_pairwise_cons hsorted hr
  constructor
  · rintro hquiet j op obj hlt hkept ⟨r, hr, hjr⟩
    obtain rfl : r = first := by simpa using hr
    refine hquiet j op obj hlt (fun hmem => ?_) ⟨r, List.mem_cons_self, hjr⟩
    rcases List.mem_cons.mp hmem with rfl | hmem
    · exact Nat.lt_irrefl _ hjr
    · exact Nat.lt_asymm hjr (hfirst j hmem)
  · rintro hquiet j op obj hlt hkept ⟨r, hr, hjr⟩ hop hobj
    rcases Nat.lt_trichotomy j first with hbefore | rfl | hbehind
    · exact hquiet j op obj hlt (by simpa using hbefore.ne) ⟨first, List.mem_cons_self, hbefore⟩
        hop hobj
    · exact absurd List.mem_cons_self hkept
    · obtain ⟨⟩ := hobj
      exact hskips j op hop ⟨first, List.mem_cons_self, hbehind⟩ hkept ⟨r, hr, hjr⟩

end ObjectCluster

theorem matches_objectSpreads : (LiteralPass.objectSpreads uses).Matches ops := by
  obtain ⟨hspecs, hpairwise⟩ := spec_of_objectClusters uses ops
  have hunique : ∀ c ∈ objectClusters uses ops, ∀ c' ∈ objectClusters uses ops,
      ∀ r ∈ c.indices, r ∈ c'.indices → c = c' := by
    intro c hc c' hc' r hr hr'
    by_contra hne
    have hsymm : Std.Symm fun c c' : ObjectCluster => c.indices.Disjoint c'.indices :=
      ⟨fun _ _ => List.Disjoint.symm⟩
    exact hpairwise.forall hc hc' hne hr hr'
  constructor
  · intro g hg
    obtain ⟨c, hc, rfl⟩ := List.mem_map.mp hg
    obtain ⟨target, hspec⟩ := hspecs c hc
    obtain ⟨op, hop, hdst⟩ := hspec.alloc
    refine ⟨target, ?_, fun r hr => ⟨hspec.behind r hr, ?_⟩, hspec.sorted, hspec.nonempty,
      fun r hr => hr⟩
    · show ops[c.allocIdx]?.bind SsaOp.dst = some target
      rw [hop, Option.bind_some, hdst]
    · obtain ⟨p, hp, rfl⟩ := List.mem_map.mp hr
      obtain ⟨op, hop, hadds⟩ := hspec.adds p hp
      exact ⟨op, hop, hadds.writes⟩
  · intro g hg g' hg' _ r hr hr'
    obtain ⟨c, hc, rfl⟩ := List.mem_map.mp hg
    obtain ⟨c', hc', rfl⟩ := List.mem_map.mp hg'
    rw [hunique c hc c' hc' r hr hr']
  · intro g hg halone
    obtain ⟨c, hc, rfl⟩ := List.mem_map.mp hg
    obtain ⟨target, hspec⟩ := hspecs c hc
    obtain ⟨op, hop, -⟩ := hspec.alloc
    have hsame : ∀ c' ∈ objectClusters uses ops, c'.allocIdx = c.allocIdx → c' = c := by
      intro c' hc' hidx
      have hgroup := halone c'.group (List.mem_map.mpr ⟨c', hc', rfl⟩) hidx
      have hindices : c'.indices = c.indices := congrArg FoldGroup.removed hgroup
      obtain ⟨r, hr⟩ := List.exists_mem_of_ne_nil _ hspec.nonempty
      exact hunique c' hc' c hc r (hindices ▸ hr) hr
    have hfilter : (objectClusters uses ops).filter (fun c' => c'.allocIdx = c.allocIdx) = [c] := by
      have hmem : c ∈ (objectClusters uses ops).filter fun c' => c'.allocIdx = c.allocIdx :=
        List.mem_filter.mpr ⟨hc, by simp⟩
      have heq : ∀ c' ∈ (objectClusters uses ops).filter fun c' => c'.allocIdx = c.allocIdx,
          c' = c := by
        intro c' hc'
        obtain ⟨hmem', hidx⟩ := List.mem_filter.mp hc'
        exact hsame c' hmem' (by simpa using hidx)
      obtain ⟨r, hr⟩ := List.exists_mem_of_ne_nil _ hspec.nonempty
      exact eq_singleton hmem heq (hpairwise.filter _) fun h => h hr hr
    show ((((objectClusters uses ops).foldl ObjectCluster.apply ops)[c.allocIdx]?.map
      SsaOp.operands).getD []).tail.filterMap SsaOperand.var? = _
    rw [ObjectCluster.getElem?_foldl_apply, hfilter, hop]
    exact hspec.vars op

end ObjectSpreads

/-! ## When folds keep the order -/

theorem LiteralPass.safe_iff (inlines : VarId → Prop) (pass : LiteralPass) (ops : List SsaOp)
    (hssa : (ops.filterMap SsaOp.dst).Nodup) :
    pass.Safe inlines ops ↔ ∀ g ∈ pass.groups ops,
      (∀ r ∈ g.entries, ∀ v ∈ movedVars ops r, AvailableAt inlines ops g.alloc v) ∧
        QuietUntil ops g.alloc (ops[g.alloc]?.bind SsaOp.dst) g.removed ∧
          g.entries = g.removed ∧ g.Alone (pass.groups ops) := by
  cases pass with
  | clusters tables =>
    rw [groups, List.forall_mem_map]
    refine forall₂_congr fun f hf => ?_
    have hspec := mem_clusterFolds hf
    have hvalues : (∀ r ∈ f.slotEntries, ∀ v ∈ movedVars ops r,
          LateAvailable inlines ops f.bufferIdx v) ↔
        ∀ r ∈ f.slotEntries, ∀ v ∈ movedVars ops r, AvailableAt inlines ops f.bufferIdx v := by
      refine forall₂_congr fun r hr => forall₂_congr fun v hv => ?_
      rw [ClusterFold.slotEntries_eq] at hr
      obtain ⟨put, hput, rfl⟩ := List.mem_map.mp hr
      have hputSpec := hspec.put (ClusterFold.mem_of_mem_slotPuts hput)
      rw [hputSpec.movedVars_eq, Option.mem_toList] at hv
      refine (hputSpec.available_iff hssa ?_).symm
      cases hvalue : put.value <;> simp_all [SsaOperand.var?]
    have halone : f.group.Alone ((clusterFolds tables ops).map ClusterFold.group) := by
      intro g hg halloc
      obtain ⟨f', hf', rfl⟩ := List.mem_map.mp hg
      rw [(mem_clusterFolds hf').unique hspec halloc]
    rw [hvalues, ← hspec.dst, ← hspec.slotEntries_eq_iff]
    exact and_congr_right fun _ => and_congr_right fun _ => ⟨fun h => ⟨h, halone⟩, And.left⟩
  | arraySpreads uses =>
    rw [groups, List.forall_mem_map]
    refine forall₂_congr fun c hc => ?_
    exact and_congr_right fun _ => and_congr_right fun _ => ⟨fun h => ⟨rfl, h⟩, And.right⟩
  | objectSpreads uses =>
    rw [groups, List.forall_mem_map]
    refine forall₂_congr fun c hc => ?_
    obtain ⟨target, hspec⟩ := (spec_of_objectClusters uses ops).1 c hc
    have hobject : ops[c.allocIdx]?.bind SsaOp.dst = some target := by
      obtain ⟨op, hop, hdst⟩ := hspec.alloc
      rw [hop, Option.bind_some, hdst]
    have hquiet := hspec.quiet_iff
    rw [← hobject] at hquiet
    exact and_congr_right fun _ => and_congr hquiet.symm ⟨fun h => ⟨rfl, h⟩, And.right⟩

theorem LiteralPass.matches_of_ssa (pass : LiteralPass) {ops : List SsaOp}
    (hssa : (ops.filterMap SsaOp.dst).Nodup) : pass.Matches ops := by
  cases pass with
  | clusters tables => exact matches_clusters
  | arraySpreads uses => exact matches_arraySpreads hssa
  | objectSpreads uses => exact matches_objectSpreads

/-- The folds of a block keep its order exactly when their matches are safe. -/
theorem LiteralPass.keepsOrder_iff_safe (inlines : VarId → Prop) (pass : LiteralPass)
    (ops : List SsaOp) (hssa : (ops.filterMap SsaOp.dst).Nodup) :
    (∀ f ∈ pass.folds ops, f.KeepsOrder inlines ops) ↔ pass.Safe inlines ops := by
  rw [pass.safe_iff inlines ops hssa]
  exact forall_keepsOrder_iff (pass.matches_of_ssa hssa)

/-- `[1, ...r2, 3]`, with the operations that come behind the array and before the spread. -/
def spreadArray (between : List SsaOp) : List SsaOp :=
  { name := "NewArrayWithBuffer"
    dst := some ⟨1, 0⟩
    operands := [.dstPlaceholder, .resolvedString "[1]"]
    original := ⟨0, 8, "NewArrayWithBuffer", []⟩ } :: between ++ [
  { name := "CallBuiltin"
    dst := some ⟨4, 0⟩
    operands := [.dstPlaceholder, .const 48, .const 4, .var ⟨1, 0⟩, .var ⟨2, 0⟩, .var ⟨5, 0⟩]
    original := ⟨8, 4, "CallBuiltin", []⟩ },
  { name := "DefineOwnByVal"
    dst := none
    operands := [.var ⟨1, 0⟩, .var ⟨3, 0⟩, .var ⟨4, 0⟩, .const 1]
    original := ⟨12, 5, "DefineOwnByVal", []⟩ }]

/-- The source of the spread is what a call returns. -/
def callBetween : SsaOp :=
  { name := "Call1"
    dst := some ⟨2, 0⟩
    operands := [.dstPlaceholder, .var ⟨6, 0⟩, .var ⟨7, 0⟩]
    original := ⟨8, 4, "Call1", []⟩ }

theorem arrayClusters_spreadArray_nil : arrayClusters (fun _ => 1) (spreadArray []) =
    [⟨0, 1, 2, .var ⟨2, 0⟩, .var ⟨3, 0⟩⟩] := by
  rfl

theorem arrayClusters_spreadArray_call : arrayClusters (fun _ => 1) (spreadArray [callBetween]) =
    [⟨0, 2, 3, .var ⟨2, 0⟩, .var ⟨3, 0⟩⟩] := by
  rfl

theorem spreadArray_nil_keepsOrder :
    (LiteralPass.arraySpreads fun _ => 1).folds (spreadArray []) ≠ [] ∧
      ∀ f ∈ (LiteralPass.arraySpreads fun _ => 1).folds (spreadArray []),
        f.KeepsOrder (fun _ => False) (spreadArray []) := by
  refine ⟨List.cons_ne_nil _ _, ?_⟩
  refine (LiteralPass.keepsOrder_iff_safe (fun _ => False) (.arraySpreads fun _ => 1)
    (spreadArray []) (by decide)).mpr ?_
  have hbefore (v : VarId) (hv : v ∉ (spreadArray []).filterMap SsaOp.dst) :
      AvailableAt (fun _ => False) (spreadArray []) 0 v :=
    .before fun d op hop hdst =>
      absurd (List.mem_filterMap.mpr ⟨op, List.mem_of_getElem? hop, hdst⟩) hv
  intro c hc
  have hgroups : (LiteralPass.arraySpreads fun _ => 1).groups (spreadArray []) =
      [⟨0, [1, 2], [1, 2]⟩] := rfl
  rw [arrayClusters_spreadArray_nil, List.mem_singleton] at hc
  subst hc
  refine ⟨fun r hr v hv => hbefore v ?_, ?_, ?_⟩
  · simp only [List.mem_cons, List.not_mem_nil, or_false] at hr
    rcases hr with rfl | rfl
    · obtain rfl : v = ⟨2, 0⟩ := List.mem_singleton.mp hv
      decide
    · obtain rfl : v = ⟨3, 0⟩ := List.mem_singleton.mp hv
      decide
  · rintro j op obj hlt hkept ⟨r, hr, hjr⟩
    simp only [List.mem_cons, List.not_mem_nil, or_false] at hr hkept
    omega
  · rw [hgroups]
    intro g hg _
    exact List.mem_singleton.mp hg

theorem spreadArray_call_not_keepsOrder :
    ¬ ∀ (inlines : VarId → Prop) (pass : LiteralPass) (ops : List SsaOp),
      (ops.filterMap SsaOp.dst).Nodup → ∀ f ∈ pass.folds ops, f.KeepsOrder inlines ops := by
  intro h
  have hssa : ((spreadArray [callBetween]).filterMap SsaOp.dst).Nodup := by decide
  have hkeeps := h (fun _ => True) (.arraySpreads fun _ => 1) (spreadArray [callBetween]) hssa _
    (List.mem_map.mpr ⟨⟨0, [2, 3], [2, 3]⟩, by
      rw [LiteralPass.groups, arrayClusters_spreadArray_call]
      exact List.mem_singleton.mpr rfl, rfl⟩)
  have hcall : (spreadArray [callBetween])[1]? = some callBetween := rfl
  cases hkeeps.available ⟨2, 0⟩ (List.mem_cons_of_mem _ List.mem_cons_self) with
  | before hbefore => exact absurd (hbefore 1 callBetween hcall rfl) (Nat.not_lt_zero 1)
  | inlined hop hdst _ hpure _ _ =>
    obtain rfl := def_unique hssa hop hcall hdst rfl
    obtain rfl := Option.some.inj (hcall.symm.trans hop)
    exact absurd hpure (by decide)

end Hermes.Structure
