-- SUMMARY: Runs of the instructions by program counter, and that the blocks of a built graph run like them.
import DroidsawHermes.Decompile.Addresses
import DroidsawHermes.Decompile.ConstantRuns
import DroidsawHermes.Decompile.RegisterPrograms
import DroidsawHermes.Decompile.SwitchTables
import DroidsawHermes.Lib.Steps

/-!
# Runs of the instructions

A run of the decoded body goes from address to address and does what the operands tell. The
program of a graph goes from block to block. A block is a path of instructions, and its successors
are where its last instruction can go on.
-/

open Bytes

namespace Hermes.Decompile

/-! ## Runs -/

namespace Machine

variable {Value σ Event : Type} (m : Machine Value σ Event)

/-- What is no jump, branch, switch or exit goes on behind itself. -/
def FallsThrough : Prop :=
  ∀ op values s, kindOf op.original.name = .next → (m.exec op values s).next = 0

/-- The instruction at the program counter. -/
def codeStep (frameSize : Nat) (bytecodes : List UInt8) (insts : List DecodedInst)
    (c : Int × Values Value × σ) : List Event × Option (Int × Values Value × σ) :=
  match insts.find? fun inst => inst.offset = c.1 with
  | none => ([], none)
  | some inst =>
    let op := inst.reading frameSize
    let effect := m.exec op (op.reads.map c.2.1) c.2.2
    let index := if op.dst.isNone then effect.next else 0
    (effect.events, if effect.stops then none
      else ((inst.nextAddresses bytecodes)[index]?).map fun pc =>
        (pc, assign c.2.1 op.dst effect.value, effect.state))

/-- A block, entered from the first component. -/
def blockStep (f : SsaFunction) (c : BlockId × BlockId × Values Value × σ) :
    List Event × Option (BlockId × BlockId × Values Value × σ) :=
  match f.block? c.2.1 with
  | none => ([], none)
  | some b =>
    let result := m.runOps b.ops (enterPhis b.phis c.1 c.2.2.1) c.2.2.2 0
    (result.1, result.2.bind fun e => (b.successors[e.2.2]?).map fun succ =>
      (c.2.1, succ, e.1, e.2.1))

variable {m}

end Machine

/-- Only the last element may be dropped. -/
theorem getElem?_filterMap {α β : Type} {f : α → Option β} {l : List α}
    (h : ∀ x ∈ l.dropLast, (f x).isSome) (n : Nat) : (l.filterMap f)[n]? = l[n]?.bind f := by
  induction l generalizing n with
  | nil => rfl
  | cons a l ih =>
    cases l with
    | nil => cases hf : f a <;> cases n <;> simp [hf]
    | cons b l =>
      rw [List.dropLast_cons_of_ne_nil (List.cons_ne_nil b l), List.forall_mem_cons] at h
      obtain ⟨c, hc⟩ := Option.isSome_iff_exists.mp h.1
      rw [List.filterMap_cons_some hc]
      cases n with
      | zero => simp [hc]
      | succ n => exact ih h.2 n

/-! ## A block is a path -/

section Path

variable {Value σ Event : Type} {m : Machine Value σ Event} {insts : List DecodedInst} {hi : Nat}

theorem find?_offset (htiles : InstTiles 0 hi insts) {inst : DecodedInst} (hinst : inst ∈ insts) :
    insts.find? (fun other => (other.offset : Int) = (inst.offset : Nat)) = some inst := by
  have hsome : (insts.find? fun other => (other.offset : Int) = (inst.offset : Nat)).isSome :=
    List.find?_isSome.mpr ⟨inst, hinst, decide_eq_true rfl⟩
  obtain ⟨other, hother⟩ := Option.isSome_iff_exists.mp hsome
  have hoffset : other.offset = inst.offset := by simpa using List.find?_some hother
  rw [hother, htiles.start_inj (List.mem_of_find?_eq_some hother) hinst hoffset]

/-- What an instruction does and where it goes on. -/
theorem codeStep_at (frameSize : Nat) (bytecodes : List UInt8) (htiles : InstTiles 0 hi insts)
    {inst : DecodedInst} (hinst : inst ∈ insts) (values : VarId → Value) (s : σ) :
    let op := inst.reading frameSize
    let effect := m.exec op (op.reads.map values) s
    m.codeStep frameSize bytecodes insts ((inst.offset : Nat), values, s) =
      (effect.events, if effect.stops then none
        else ((inst.nextAddresses bytecodes)[if op.dst.isNone then effect.next else 0]?).map fun pc =>
          (pc, Machine.assign values op.dst effect.value, effect.state)) := by
  simp only [Machine.codeStep, find?_offset htiles hinst]

/-- The instructions behind one another do what the operations of the block do, and the last one
goes on. -/
theorem path_of_tiles (frameSize : Nat) (bytecodes : List UInt8) (hm : m.FallsThrough)
    (htiles : InstTiles 0 hi insts) {part : List DecodedInst} {lo stop : Nat}
    (hpart : InstTiles lo stop part) (hsub : ∀ inst ∈ part, inst ∈ insts)
    (hinner : ∀ inst ∈ part.dropLast, kindOf inst.name = .next) {last : DecodedInst}
    (hlast : part.getLast? = some last) (values : VarId → Value) (s : σ) :
    ∃ j c es es',
      Steps.Path (m.codeStep frameSize bytecodes insts) j (((lo : Nat) : Int), values, s) es c ∧
      (m.runOps (part.map (DecodedInst.reading frameSize)) values s 0).1 = es ++ es' ∧
      m.codeStep frameSize bytecodes insts c =
        (es', (m.runOps (part.map (DecodedInst.reading frameSize)) values s 0).2.bind fun e =>
          ((last.nextAddresses bytecodes)[e.2.2]?).map fun pc => (pc, e.1, e.2.1)) := by
  induction part generalizing lo values s with
  | nil => cases hlast
  | cons inst rest ih =>
    obtain ⟨rfl, -, hrest⟩ := hpart
    rw [List.forall_mem_cons] at hsub
    have hstep := codeStep_at (m := m) frameSize bytecodes htiles hsub.1 values s
    rw [List.map_cons, Machine.runOps]
    dsimp only at hstep ⊢
    generalize hop : inst.reading frameSize = op at hstep ⊢
    generalize heffect : m.exec op (op.reads.map values) s = effect at hstep ⊢
    by_cases hstops : effect.stops = true
    · rw [if_pos hstops] at hstep ⊢
      exact ⟨0, _, [], _, .refl _, rfl, hstep⟩
    rw [if_neg hstops] at hstep ⊢
    cases rest with
    | nil =>
      obtain rfl := Option.some.inj hlast
      refine ⟨0, _, [], _, .refl _, (List.nil_append _).symm, ?_⟩
      rw [hstep, List.map_nil, Machine.runOps, List.append_nil]
      rfl
    | cons next rest =>
      rw [List.dropLast_cons_of_ne_nil (List.cons_ne_nil _ _), List.forall_mem_cons] at hinner
      -- An instruction inside the block goes on behind itself.
      have hzero : (if op.dst.isNone then effect.next else 0) = 0 := by
        rw [← heffect, hm op _ s (hop ▸ hinner.1), ite_self]
      rw [hzero] at hstep ⊢
      rw [nextAddresses_of_next hinner.1] at hstep
      obtain ⟨j, c, es, es', hpath, hevents, hlaststep⟩ := ih hrest hsub.2 hinner.2
        (List.getLast?_cons_cons.symm.trans hlast) (Machine.assign values op.dst effect.value)
        effect.state
      refine ⟨j + 1, c, effect.events ++ es, es', .head hstep hpath, ?_, hlaststep⟩
      rw [hevents, List.append_assoc]

end Path

/-! ## Runs of blocks -/

section Simulation

variable {Value σ Event : Type} {m : Machine Value σ Event}
  {frameSize : Nat} {code bytecodes : List UInt8} {t : OpcodeTables} {insts : List DecodedInst}
  {excHandlers : List ExcHandler} {boundaries : OrdSet Nat} {cfg : Cfg} {hi : Nat}

theorem tiles_part (htiles : InstTiles 0 hi insts) {part : List DecodedInst}
    (hpart : part ∈ parts boundaries insts) : ∃ stop, InstTiles (startOf part) stop part := by
  rw [← parts_flatten boundaries insts] at htiles
  obtain ⟨before, after, hsplit⟩ := List.mem_iff_append.mp hpart
  rw [hsplit, List.flatten_append, List.flatten_cons] at htiles
  obtain ⟨lo, -, hrest⟩ := Segments.tiles_append.mp htiles
  obtain ⟨stop, htiles, -⟩ := Segments.tiles_append.mp hrest
  have hne := parts_ne_nil hpart
  have hstart : startOf part = lo := by
    rw [startOf, List.head?_eq_some_head hne]
    exact htiles.start_head hne
  exact ⟨stop, hstart ▸ htiles⟩

theorem Built.stop_boundary (h : Built insts excHandlers bytecodes boundaries cfg) :
    ∀ inst ∈ insts, inst.isTerminator → inst.stop ∈ boundaries.keys := by
  intro inst hinst hterm
  refine (h.boundary _).mpr (Or.inr (Or.inl ⟨inst, hinst, ?_⟩))
  simp [instBoundaries, hterm]

/-- Only the last instruction of a block is a terminator. -/
theorem Built.inner (h : Built insts excHandlers bytecodes boundaries cfg)
    (htiles : InstTiles 0 hi insts) {part : List DecodedInst}
    (hpart : part ∈ parts boundaries insts) :
    ∀ inst ∈ part.dropLast, inst.isTerminator = false := by
  intro inst hinst
  rw [Bool.eq_false_iff]
  intro hterm
  have hlast := getLast?_of_terminator h.stop_boundary htiles hpart
    (List.mem_of_mem_dropLast hinst) hterm
  obtain ⟨stop, hpartTiles⟩ := tiles_part htiles hpart
  have hsorted := hpartTiles.starts_sorted
  rw [← List.dropLast_append_getLast? inst hlast] at hsorted
  exact Nat.lt_irrefl _
    ((List.pairwise_append.mp hsorted).2.2 inst hinst inst (List.mem_singleton_self inst))

/-- Where the last instruction of a block goes on, a block starts. -/
theorem Built.next_known (h : Built insts excHandlers bytecodes boundaries cfg)
    (htiles : InstTiles 0 hi insts) {part : List DecodedInst}
    (hpart : part ∈ parts boundaries insts) {last : DecodedInst}
    (hlast : part.getLast? = some last) {types : List OpType} (hdec : Decoded types last)
    (hcount : last.caseCount ≤ 65536) {a : Int} (ha : a ∈ last.nextAddresses bytecodes)
    (hinst : ∃ inst ∈ insts, a = (inst.offset : Nat)) :
    (blockAt cfg.blocks.keys a).isSome := by
  have hlastMem := mem_of_mem_parts hpart (List.mem_of_getLast? hlast)
  obtain ⟨inst, hmem, rfl⟩ := hinst
  have hbound : inst.offset ≤ u32Max := (Nat.le_add_right _ _).trans (h.fits inst hmem)
  refine Option.isSome_iff_exists.mpr ⟨inst.offset, blockAt_eq_some.mpr ⟨?_, hbound, rfl⟩⟩
  rw [h.keys]
  by_cases hkind : kindOf last.name = .next
  · -- A block ends in front of another block.
    have hstop : inst.offset = last.stop := by
      rw [nextAddresses_of_next hkind, List.mem_singleton] at ha
      exact Int.ofNat.inj ha
    obtain ⟨i, hi⟩ := List.mem_iff_getElem?.mp hpart
    have hpartStop : stopOf part = last.stop := by
      rw [stopOf, hlast]
      rfl
    have hnext := (parts_tiles boundaries htiles).start_next hi
    have hhi := (htiles.bounds hmem).2
    have hsize := (htiles.bounds hmem).1
    rw [hpartStop, if_pos (by omega)] at hnext
    obtain ⟨other, hother, hstart⟩ := Option.map_eq_some_iff.mp hnext
    exact hstop ▸ hstart ▸ List.mem_map_of_mem (List.mem_of_getElem? hother)
  · refine (mem_starts htiles ((h.boundary 0).mpr (Or.inl rfl))).mpr
      ⟨⟨inst, hmem, rfl⟩, (h.boundary _).mpr (Or.inr (Or.inl ⟨last, hlastMem, ?_⟩))⟩
    have haddress : address? (inst.offset : Nat) = some inst.offset :=
      if_pos ⟨Int.natCast_nonneg _, by exact_mod_cast hbound⟩
    exact mem_instBoundaries hdec hcount hkind ha haddress

/-- The other instructions of a block go on behind themselves. -/
theorem Built.inner_next (h : Built insts excHandlers bytecodes boundaries cfg)
    (htiles : InstTiles 0 hi insts) (hdec : ∀ inst ∈ insts, ∃ types, Decoded types inst)
    {part : List DecodedInst} (hpart : part ∈ parts boundaries insts) :
    ∀ inst ∈ part.dropLast, kindOf inst.name = .next := by
  intro inst hinst
  obtain ⟨types, hdecoded⟩ := hdec inst (mem_of_mem_parts hpart (List.mem_of_mem_dropLast hinst))
  have hterm := h.inner htiles hpart inst hinst
  by_contra hkind
  rw [hdecoded.testsTell.isTerminator_iff.mpr hkind] at hterm
  cases hterm

/-- The successors of a block are the blocks where its last instruction goes on. -/
theorem Built.getElem?_successors (h : Built insts excHandlers bytecodes boundaries cfg)
    (htiles : InstTiles 0 hi insts) (hinside : AddressesInside bytecodes insts)
    {part : List DecodedInst} (hpart : part ∈ parts boundaries insts) {last : DecodedInst}
    (hlast : part.getLast? = some last) {types : List OpType} (hdec : Decoded types last)
    (n : Nat) : (partSuccessors bytecodes ((parts boundaries insts).map startOf) part)[n]? =
      ((last.nextAddresses bytecodes)[n]?).bind (blockAt cfg.blocks.keys) := by
  have hlastMem := mem_of_mem_parts hpart (List.mem_of_getLast? hlast)
  have hcount := hinside.cases last hlastMem
  rw [partSuccessors_eq hdec hlast hcount, ← h.keys]
  refine getElem?_filterMap (fun a ha => ?_) n
  exact h.next_known htiles hpart hlast hdec hcount (List.mem_of_mem_dropLast ha)
    (hinside.next last hlastMem a ha)

/-- A block is a path to its last instruction, which goes on where the block does. -/
theorem Built.path (h : Built insts excHandlers bytecodes boundaries cfg)
    (htiles : InstTiles 0 hi insts) (hdec : ∀ inst ∈ insts, ∃ types, Decoded types inst)
    (hinside : AddressesInside bytecodes insts) (hm : m.FallsThrough)
    {d : BlockId × BlockId × (VarId → Value) × σ} (hd : d.2.1 ∈ cfg.blocks.keys) :
    ∃ j c es es' next,
      Steps.Path (m.codeStep frameSize bytecodes insts) j ((d.2.1 : Nat), d.2.2) es c ∧
      m.codeStep frameSize bytecodes insts c = (es', next) ∧
      (m.blockStep (readProgram frameSize cfg) d).1 = es ++ es' ∧
      (m.blockStep (readProgram frameSize cfg) d).2.map Prod.snd =
        next.bind (fun c => (blockAt cfg.blocks.keys c.1).map fun id => (id, c.2)) ∧
      ∀ c' ∈ next, (∃ inst ∈ insts, c'.1 = (inst.offset : Nat)) →
        (blockAt cfg.blocks.keys c'.1).isSome := by
  obtain ⟨pred, id, values, s⟩ := d
  obtain ⟨block, hget⟩ : ∃ block, cfg.blocks.get? id = some block := OrdMap.mem_keys_iff.mp hd
  have hmem := OrdMap.get?_eq_some_iff.mp hget
  rw [h.blocks] at hmem
  obtain ⟨part, hpart, heq⟩ := List.mem_map.mp hmem
  obtain ⟨rfl, rfl⟩ := Prod.mk.inj heq
  obtain ⟨last, hlast, hlastMem⟩ := exists_getLast hpart
  obtain ⟨stop, hpartTiles⟩ := tiles_part htiles hpart
  obtain ⟨j, c, es, es', hpath, hevents, hstep⟩ := path_of_tiles frameSize bytecodes hm htiles
    hpartTiles (fun inst hinst => mem_of_mem_parts hpart hinst)
    (h.inner_next htiles hdec hpart) hlast values s
  obtain ⟨types, hdecoded⟩ := hdec last hlastMem
  have hsuccs := h.getElem?_successors htiles hinside hpart hlast hdecoded
  have hfound : (readProgram frameSize cfg).block? (startOf part) =
      some (readBlock frameSize (startOf part)
        (builtBlock excHandlers bytecodes (parts boundaries insts) part)) := by
    rw [block?_readProgram, hget, Option.map_some]
  refine ⟨j, c, es, es', _, hpath, hstep, ?_, ?_, ?_⟩
  · simp only [Machine.blockStep, hfound]
    exact hevents
  · have hphis : enterPhis [] pred values = values := rfl
    simp only [Machine.blockStep, hfound, readBlock, builtBlock, hsuccs, hphis]
    cases (m.runOps (part.map (DecodedInst.reading frameSize)) values s 0).2 with
    | none => rfl
    | some e =>
      rw [Option.bind_some, Option.bind_some]
      cases (last.nextAddresses bytecodes)[e.2.2]? with
      | none => rfl
      | some a =>
        rw [Option.bind_some, Option.map_some, Option.bind_some]
        cases blockAt cfg.blocks.keys a <;> rfl
  · intro c' hc' hinst
    obtain ⟨e, -, hc'⟩ := Option.bind_eq_some_iff.mp hc'
    obtain ⟨a, ha, rfl⟩ := Option.map_eq_some_iff.mp hc'
    exact h.next_known htiles hpart hlast hdecoded (hinside.cases last hlastMem)
      (List.mem_of_getElem? ha) hinst

end Simulation

section Pipeline

variable {Value τ Event σ : Type} {m : Machine Value τ Event} {num : Float → Value}
  {undef : Value} {B : CommonBuilder σ} {types : DecodedInst → List OpType}
  {unwritten : σ → VarId → Prop} {cfg : Cfg} {frameSize : Nat} {t : OpcodeTables}
  {code bytecodes : List UInt8} {insts : List DecodedInst} {excHandlers : List ExcHandler}
  {built : BuiltSsa}

end Pipeline

end Hermes.Decompile
