-- SUMMARY: What the steps of the graph construction compute: the boundary set, the blocks as parts of the instruction list, and the edges of each part.
import DroidsawHermes.Decompile.Cfg
import DroidsawHermes.Lib.Segments

/-!
# The blocks of a graph

The instruction list, cut before each instruction at a boundary, gives the blocks
in order. Every later step keeps them and fills in one field; `Built` collects
what the fields hold in the end.
-/

open Bytes

namespace Hermes.Decompile

/-! ## Decoded functions tile their code -/

/-- Offset after the instruction. -/
def DecodedInst.stop (inst : DecodedInst) : Nat := inst.offset + inst.size

/-- The instructions follow each other from `lo` to `hi`. -/
abbrev InstTiles (lo hi : Nat) (insts : List DecodedInst) : Prop :=
  Segments.Tiles DecodedInst.offset DecodedInst.stop lo hi insts

theorem instNextOffset_eq_some {inst : DecodedInst} {next : Nat} :
    instNextOffset inst = some next ↔ inst.stop ≤ u32Max ∧ next = inst.stop := by
  simp only [instNextOffset, DecodedInst.stop]
  split
  · next h => simp [h, eq_comm]
  · next h => simp [h]

/-- Without a wrap the narrowed offsets are the positions. -/
theorem DecodedFrom.tiles {t : OpcodeTables} {code : List UInt8} {pos : Nat}
    {insts : List DecodedInst} (h : DecodedFrom t code pos insts)
    (hfits : ∀ inst ∈ insts, inst.stop ≤ u32Max) (hpos : pos ≤ u32Max) :
    InstTiles pos code.length insts := by
  induction h with
  | done => exact rfl
  | @inst pos inst rest hoffset htable hrest ih =>
    have hstop := hfits inst List.mem_cons_self
    have hexact : inst.offset = pos := by
      rw [hoffset]
      apply Nat.mod_eq_of_lt
      simp only [u32Max] at hpos
      omega
    have hnext : inst.stop = pos + inst.size := by rw [DecodedInst.stop, hexact]
    refine ⟨hexact, ?_, ?_⟩
    · rw [hexact, hnext]
      have := htable.size_pos
      omega
    · rw [hnext]
      exact ih (fun i hi => hfits i (List.mem_cons_of_mem _ hi)) (hnext ▸ hstop)

/-! ## Boundaries -/

/-- The addresses where blocks start. -/
def IsBoundary (instructions : List DecodedInst) (excHandlers : List ExcHandler)
    (bytecodes : List UInt8) (p : Nat) : Prop :=
  p = 0 ∨ (∃ inst ∈ instructions, p ∈ instBoundaries bytecodes inst inst.stop) ∨
    ∃ eh ∈ excHandlers, p = eh.start ∨ p = eh.stop ∨ p = eh.target

theorem foldlM_addBoundaries {bytecodes : List UInt8} {instructions : List DecodedInst}
    {s s' : OrdSet Nat} (h : instructions.foldlM (addBoundaries bytecodes) s = .ok s') :
    (∀ inst ∈ instructions, inst.stop ≤ u32Max) ∧ ∀ p, p ∈ s'.keys ↔
      p ∈ s.keys ∨ ∃ inst ∈ instructions, p ∈ instBoundaries bytecodes inst inst.stop := by
  induction instructions generalizing s with
  | nil =>
    cases h
    simp
  | cons inst rest ih =>
    rw [List.foldlM_cons] at h
    obtain ⟨s₁, hstep, hrest⟩ := Loop.bind_eq_ok.mp h
    simp only [addBoundaries] at hstep
    split at hstep
    · cases hstep
    · next next hnext =>
      obtain ⟨hstop, rfl⟩ := instNextOffset_eq_some.mp hnext
      cases hstep
      obtain ⟨hfits, hmem⟩ := ih hrest
      refine ⟨List.forall_mem_cons.mpr ⟨hstop, hfits⟩, fun p => ?_⟩
      rw [hmem, OrdSet.mem_foldl_insert, List.exists_mem_cons_iff]
      tauto

theorem findBoundaries_spec {instructions : List DecodedInst} {excHandlers : List ExcHandler}
    {bytecodes : List UInt8} {boundaries : OrdSet Nat}
    (h : findBoundaries instructions excHandlers bytecodes = .ok boundaries) :
    (∀ inst ∈ instructions, inst.stop ≤ u32Max) ∧
      ∀ p, p ∈ boundaries.keys ↔ IsBoundary instructions excHandlers bytecodes p := by
  obtain ⟨s, hs, heq⟩ := Loop.bind_eq_ok.mp h
  cases heq
  obtain ⟨hfits, hmem⟩ := foldlM_addBoundaries hs
  refine ⟨hfits, fun p => ?_⟩
  have hzero : p ∈ (OrdSet.empty.insert 0 : OrdSet Nat).keys ↔ p = 0 := by
    rw [OrdSet.mem_insert]
    simp [OrdSet.empty, OrdMap.empty, OrdMap.keys]
  rw [OrdSet.mem_foldl_insert, hmem, hzero, IsBoundary]
  simp only [List.mem_flatMap, List.mem_cons, List.not_mem_nil, or_false]
  rw [or_comm, or_assoc]

/-! ## Parts -/

def startOf (part : List DecodedInst) : Nat := (part.head?.map DecodedInst.offset).getD 0

def stopOf (part : List DecodedInst) : Nat := (part.getLast?.map DecodedInst.stop).getD 0

def atBoundary (boundaries : OrdSet Nat) (inst : DecodedInst) : Bool :=
  inst.offset ∈ boundaries.keys

/-- The instruction list, cut before each instruction at a boundary. -/
def parts (boundaries : OrdSet Nat) : List DecodedInst → List (List DecodedInst)
  | [] => []
  | inst :: rest => Segments.cut (atBoundary boundaries) [inst] rest

def partBlock (part : List DecodedInst) : BasicBlock := .new (startOf part) (stopOf part) part

theorem startOf_append {part : List DecodedInst} (hne : part ≠ []) (rest : List DecodedInst) :
    startOf (part ++ rest) = startOf part := by
  cases part with
  | nil => exact absurd rfl hne
  | cons inst part => rfl

/-- The loop, from a block that is being filled. -/
theorem foldl_splitStep (boundaries : OrdSet Nat) {rest : List DecodedInst} (blocks : BlockMap)
    {current : List DecodedInst} {lo hi : Nat} (hne : current ≠ [])
    (htiles : InstTiles lo hi (current ++ rest))
    (hfits : ∀ inst ∈ current ++ rest, inst.stop ≤ u32Max)
    (hkeys : ∀ k ∈ blocks.keys, k < lo) :
    ∃ m, finishSplit (rest.foldl (splitStep boundaries) ⟨blocks, current, startOf current⟩) =
        .ok m ∧
      m.toList = blocks.toList ++
        (Segments.cut (atBoundary boundaries) current rest).map fun part =>
          (startOf part, partBlock part) := by
  have hstart : startOf current = lo := by
    cases current with
    | nil => exact absurd rfl hne
    | cons inst current => exact htiles.1
  induction rest generalizing blocks current lo with
  | nil =>
    obtain ⟨last, hlast⟩ := Option.isSome_iff_exists.mp (List.getLast?_isSome.mpr hne)
    have hstop := hfits last (List.mem_append_left _ (List.mem_of_getLast? hlast))
    have hnext := instNextOffset_eq_some.mpr ⟨hstop, rfl⟩
    refine ⟨blocks.insert (startOf current) (.new (startOf current) last.stop current), ?_, ?_⟩
    · simp only [List.foldl_nil, finishSplit, hlast, hnext]
    · rw [OrdMap.toList_insert_last (hstart ▸ hkeys)]
      simp [Segments.cut, partBlock, stopOf, hlast]
  | cons inst rest ih =>
    obtain ⟨mid, hcurrent, hrest⟩ := Segments.tiles_append.mp htiles
    rw [List.foldl_cons, splitStep]
    by_cases hmark : inst.offset ∈ boundaries.keys
    · -- the instruction starts a block
      have hoffset : stopOf current = inst.offset := by
        have hlast := hcurrent.stop_getLast hne
        rw [hrest.1, stopOf, List.getLast?_eq_some_getLast hne]
        exact hlast
      simp only [hmark, hne, ne_eq, not_false_eq_true, and_self, if_true, List.nil_append]
      have hlt : lo < inst.offset := by
        rw [hrest.1]
        cases current with
        | nil => exact absurd rfl hne
        | cons c current =>
          have hb := hcurrent.bounds List.mem_cons_self
          omega
      have hkeys' : ∀ k ∈ (blocks.insert (startOf current)
          (.new (startOf current) inst.offset current)).keys, k < inst.offset := by
        intro k hk
        rcases OrdMap.mem_keys_insert.mp hk with rfl | hk
        · rw [hstart]
          exact hlt
        · exact (hkeys k hk).trans hlt
      have htiles' : InstTiles inst.offset hi ([inst] ++ rest) := by
        rw [hrest.1]
        exact hrest
      obtain ⟨m, hm, hlist⟩ := ih _ (List.cons_ne_nil inst []) htiles'
        (fun i hi => hfits i (List.mem_append_right _ hi)) hkeys' rfl
      refine ⟨m, hm, ?_⟩
      rw [hlist, OrdMap.toList_insert_last (hstart ▸ hkeys)]
      simp [Segments.cut, atBoundary, hmark, partBlock, hoffset]
    · -- the instruction extends the block
      simp only [hmark, false_and, if_false, hne]
      rw [← startOf_append hne [inst]]
      rw [List.append_cons current inst rest] at htiles hfits
      obtain ⟨m, hm, hlist⟩ := ih blocks (by simp) htiles hfits hkeys
        ((startOf_append hne _).trans hstart)
      refine ⟨m, hm, ?_⟩
      rw [hlist]
      simp [Segments.cut, atBoundary, hmark]

theorem splitBlocks_spec {boundaries : OrdSet Nat} {insts : List DecodedInst} {hi : Nat}
    (hne : insts ≠ []) (htiles : InstTiles 0 hi insts) (hfits : ∀ i ∈ insts, i.stop ≤ u32Max) :
    ∃ m, splitBlocks boundaries insts = .ok m ∧
      m.toList = (parts boundaries insts).map fun part => (startOf part, partBlock part) := by
  cases insts with
  | nil => exact absurd rfl hne
  | cons inst rest =>
    obtain ⟨m, hm, hlist⟩ := foldl_splitStep boundaries .empty (List.cons_ne_nil inst [])
      htiles hfits (by simp [OrdMap.empty, OrdMap.keys])
    refine ⟨m, ?_, hlist⟩
    rw [← hm, splitBlocks, List.foldl_cons, splitStep]
    simp only [ne_eq, not_true_eq_false, and_false, if_false, if_true, List.nil_append]
    rfl

/-! ## Facts about the parts -/

section Parts

variable {boundaries : OrdSet Nat} {insts : List DecodedInst}

theorem parts_flatten (boundaries : OrdSet Nat) (insts : List DecodedInst) :
    (parts boundaries insts).flatten = insts := by
  cases insts with
  | nil => rfl
  | cons inst rest => exact Segments.cut_flatten _ _ _

theorem parts_ne (boundaries : OrdSet Nat) (hne : insts ≠ []) : parts boundaries insts ≠ [] := by
  intro hnil
  apply hne
  rw [← parts_flatten boundaries insts, hnil]
  rfl

theorem parts_ne_nil {part : List DecodedInst} (h : part ∈ parts boundaries insts) : part ≠ [] := by
  cases insts with
  | nil => cases h
  | cons inst rest => exact Segments.cut_ne_nil _ _ (List.cons_ne_nil _ _) part h

theorem mem_of_mem_parts {part : List DecodedInst} (hpart : part ∈ parts boundaries insts)
    {inst : DecodedInst} (hinst : inst ∈ part) : inst ∈ insts := by
  rw [← parts_flatten boundaries insts]
  exact List.mem_flatten.mpr ⟨part, hpart, hinst⟩

theorem exists_getLast {part : List DecodedInst} (hpart : part ∈ parts boundaries insts) :
    ∃ last, part.getLast? = some last ∧ last ∈ insts := by
  obtain ⟨last, hlast⟩ :=
    Option.isSome_iff_exists.mp (List.getLast?_isSome.mpr (parts_ne_nil hpart))
  exact ⟨last, hlast, mem_of_mem_parts hpart (List.mem_of_getLast? hlast)⟩

/-- Past its first instruction a part has no boundary. -/
theorem parts_tail {part : List DecodedInst} (h : part ∈ parts boundaries insts) :
    ∀ i ∈ part.tail, i.offset ∉ boundaries.keys := by
  cases insts with
  | nil => cases h
  | cons inst rest =>
    intro i hi
    have hmark := Segments.cut_tail (atBoundary boundaries) rest (by simp)
      (List.cons_ne_nil inst []) part h i hi
    simpa [atBoundary] using hmark

theorem parts_tiles (boundaries : OrdSet Nat) {hi : Nat} (htiles : InstTiles 0 hi insts) :
    Segments.Tiles startOf stopOf 0 hi (parts boundaries insts) := by
  rw [← parts_flatten boundaries insts] at htiles
  refine Segments.tiles_flatten (fun part hpart => ?_) htiles
  have hne := parts_ne_nil hpart
  refine ⟨hne, ?_, ?_⟩
  · rw [startOf, List.head?_eq_some_head hne]
    rfl
  · rw [stopOf, List.getLast?_eq_some_getLast hne]
    rfl

/-- Parts start at the instructions at a boundary. -/
theorem mem_starts {hi : Nat} (htiles : InstTiles 0 hi insts) (hzero : 0 ∈ boundaries.keys)
    {p : Nat} : p ∈ (parts boundaries insts).map startOf ↔
      (∃ i ∈ insts, i.offset = p) ∧ p ∈ boundaries.keys := by
  have hflat := parts_flatten boundaries insts
  constructor
  · intro hp
    obtain ⟨part, hpart, rfl⟩ := List.mem_map.mp hp
    have hne := parts_ne_nil hpart
    have hhead : startOf part = (part.head hne).offset := by
      rw [startOf, List.head?_eq_some_head hne]
      rfl
    refine ⟨⟨_, mem_of_mem_parts hpart (List.head_mem hne), hhead.symm⟩, ?_⟩
    -- the first part starts at 0, a later one at a boundary
    cases insts with
    | nil => cases hpart
    | cons inst rest =>
      have hcut := Segments.cut_head (atBoundary boundaries) [inst] rest
      cases hparts : parts boundaries (inst :: rest) with
      | nil => simp [hparts] at hpart
      | cons first later =>
        rw [show Segments.cut _ [inst] rest = first :: later from hparts] at hcut
        rw [hparts] at hpart
        rcases List.mem_cons.mp hpart with rfl | hlater
        · have hstarts := parts_tiles boundaries htiles
          rw [hparts] at hstarts
          rw [hstarts.1]
          exact hzero
        · obtain ⟨a, ha, hmark⟩ := hcut part hlater
          rw [startOf, ha]
          simpa [atBoundary] using hmark
  · rintro ⟨⟨i, hi, rfl⟩, hmark⟩
    rw [← hflat] at hi
    obtain ⟨part, hpart, hi⟩ := List.mem_flatten.mp hi
    refine List.mem_map.mpr ⟨part, hpart, ?_⟩
    cases part with
    | nil => cases hi
    | cons first later =>
      rcases List.mem_cons.mp hi with rfl | hlater
      · rfl
      · exact absurd hmark (parts_tail hpart i hlater)

end Parts

end Hermes.Decompile
