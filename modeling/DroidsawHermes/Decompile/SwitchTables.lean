-- SUMMARY: Jump tables of the switches, the successors they give a block, and the labels that the structurer derives from the successors.
import DroidsawHermes.Decompile.CfgShapes

/-!
# Switch labels

`switch_cases` of `decompile/region.rs` labels the successors of a switch block by
position. The graph construction drops table entries that repeat a target or go to
the default. The labels follow the table exactly where nothing is dropped before
the last case.
-/

open Bytes

namespace Hermes.Decompile

/-! ## Labels -/

inductive CaseLabel where
  | const (text : String)
  | string (id : Nat)
  deriving DecidableEq, Repr

def minCaseFromSwitch (last : DecodedInst) : Nat :=
  match last.operands[3]? with
  | some (Operand.uint v) => v
  | _ => 0

/-- The labels of the successors behind the first, which is the default. The last
operation of an SSA block keeps the last instruction. -/
def switchCases (b : BasicBlock) : List CaseLabel :=
  match b.instructions.getLast? with
  | none => []
  | some last =>
    let minCase := if last.isStringSwitch then 0 else minCaseFromSwitch last
    (List.range (b.successors.length - 1)).map fun i =>
      if last.isStringSwitch then .string (b.switchStringIds[i]?.getD 0)
      else .const (toString (minCase + i))

/-- The labels with the successors they go to. -/
def casePairs (b : BasicBlock) : List (CaseLabel × BlockId) :=
  (switchCases b).zip b.successors.tail

/-! ## Tables -/

/-- Entry `k` of a jump table at `start`, as a target of the switch. -/
def jumpEntry (bytecodes : List UInt8) (last : DecodedInst) (start k : Nat) : Option Nat :=
  checkedAddSigned last.offset
    (Int.bmod (ofLE (slice bytecodes (start + k * 4) (start + k * 4 + 4))) (2 ^ 32))

def stringEntryTarget (bytecodes : List UInt8) (last : DecodedInst) (start k : Nat) : Option Nat :=
  checkedAddSigned last.offset
    (Int.bmod (ofLE (slice bytecodes (start + k * 8 + 4) (start + k * 8 + 8)).reverse) (2 ^ 32))

/-- The table of a switch, from its first entry to its last, inside the bytecode:
the label of each case and its target. -/
inductive SwitchTable (bytecodes : List UInt8) (last : DecodedInst)
    (entries : List (CaseLabel × Nat)) : Prop where
  | int {jtOffset minCase maxCase : Nat}
      (hname : last.name = "SwitchImm" ∨ last.name = "UIntSwitchImm")
      (hjt : last.operands[1]? = some (.uint jtOffset))
      (hmin : last.operands[3]? = some (.uint minCase))
      (hmax : last.operands[4]? = some (.uint maxCase))
      (hlength : entries.length = maxCase + 1 - minCase)
      (hentry : ∀ k e, entries[k]? = some e →
        last.offset + jtOffset + k * 4 + 4 ≤ bytecodes.length ∧
        e.1 = .const (toString (minCase + k)) ∧
        jumpEntry bytecodes last (last.offset + jtOffset) k = some e.2) :
      SwitchTable bytecodes last entries
  | string {strTableOff numCases : Nat} (hname : last.name = "StringSwitchImm")
      (htable : last.operands[2]? = some (.uint strTableOff))
      (hcases : last.operands[4]? = some (.uint numCases))
      (hlength : entries.length = numCases)
      (hentry : ∀ k e, entries[k]? = some e →
        last.offset + strTableOff + k * 8 + 8 ≤ bytecodes.length ∧
        e.1 = .string (ofLE (slice bytecodes (last.offset + strTableOff + k * 8)
          (last.offset + strTableOff + k * 8 + 4)).reverse) ∧
        stringEntryTarget bytecodes last (last.offset + strTableOff) k = some e.2) :
      SwitchTable bytecodes last entries

/-- Every pair that the structurer derives is the table entry in its place, and
every entry that does not go to the default has its pair. -/
structure LabelsFollow (entries : List (CaseLabel × Nat)) (default : Option Nat) (b : BasicBlock) :
    Prop where
  sound : ∀ (k : Nat) p, (casePairs b)[k]? = some p → entries[k]? = some p
  complete : ∀ (k : Nat) e, entries[k]? = some e → some e.2 ≠ default → (casePairs b)[k]? = some e

/-- There is no entry, or the default is an instruction, and the entries that do
not go to it come first, as many as the construction reads, with distinct targets. -/
def CasesFirst (insts : List DecodedInst) (entries : List (CaseLabel × Nat))
    (default : Option Nat) : Prop :=
  entries = [] ∨ (∃ i ∈ insts, default = some i.offset) ∧ ∃ n ≤ 65536,
    ((entries.take n).map Prod.snd).Nodup ∧ (∀ e ∈ entries.take n, some e.2 ≠ default) ∧
    ∀ e ∈ entries.drop n, some e.2 = default

/-! ## Reading a table -/

section Table

variable {bytecodes : List UInt8} {last : DecodedInst} {entries : List (CaseLabel × Nat)}

/-- A list that `f` gives index by index, read up to a limit. -/
theorem filterMap_range_eq {α β : Type} {f : Nat → Option α} {g : β → α} {l : List β}
    (h : ∀ k x, l[k]? = some x → f k = some (g x)) (limit : Nat) :
    (List.range (min l.length limit)).filterMap f = (l.take limit).map g := by
  have hupTo : ∀ n ≤ l.length, (List.range n).filterMap f = (l.take n).map g := by
    intro n hn
    induction n with
    | zero => simp
    | succ n ih =>
      obtain ⟨x, hx⟩ : ∃ x, l[n]? = some x := ⟨_, List.getElem?_eq_getElem (by omega)⟩
      rw [List.range_succ, List.filterMap_append, ih (by omega), List.take_add_one, hx]
      simp [h n x hx]
  rw [hupTo _ (Nat.min_le_left _ _)]
  congr 1
  rw [Nat.min_comm, ← List.take_take, List.take_length]

theorem isSwitch_of_intName (hname : last.name = "SwitchImm" ∨ last.name = "UIntSwitchImm") :
    last.isStringSwitch = false ∧ last.isSwitch = true ∧ last.isUnconditionalJump = false ∧
      last.isConditionalBranch = false ∧ last.isTerminator = true := by
  rcases hname with hname | hname <;>
    simp only [DecodedInst.isStringSwitch, DecodedInst.isSwitch, DecodedInst.isUnconditionalJump,
      DecodedInst.isConditionalBranch, DecodedInst.isTerminator, DecodedInst.isJump,
      DecodedInst.isReturn, DecodedInst.isThrow, hname] <;>
    decide

theorem isSwitch_of_stringName (hname : last.name = "StringSwitchImm") :
    last.isStringSwitch = true ∧ last.isSwitch = true ∧ last.isUnconditionalJump = false ∧
      last.isConditionalBranch = false ∧ last.isTerminator = true := by
  simp only [DecodedInst.isStringSwitch, DecodedInst.isSwitch, DecodedInst.isUnconditionalJump,
    DecodedInst.isConditionalBranch, DecodedInst.isTerminator, DecodedInst.isJump,
    DecodedInst.isReturn, DecodedInst.isThrow, hname]
  decide

/-- The successors of a switch. -/
theorem successorsOf_switch {ids : List BlockId} {next : Option BlockId}
    (hswitch : last.isSwitch = true) (hjump : last.isUnconditionalJump = false)
    (hbranch : last.isConditionalBranch = false) :
    successorsOf bytecodes ids next last =
      (caseTargets bytecodes last).foldl (pushCase ids) (knownTarget ids (defaultTarget last)) := by
  simp only [successorsOf, hswitch, hjump, hbranch, Bool.false_eq_true, if_false, if_true]

theorem SwitchTable.jumps (h : SwitchTable bytecodes last entries) :
    last.isSwitch = true ∧ last.isUnconditionalJump = false ∧
      last.isConditionalBranch = false := by
  cases h with
  | int hname =>
    obtain ⟨-, hswitch, hjump, hbranch, -⟩ := isSwitch_of_intName hname
    exact ⟨hswitch, hjump, hbranch⟩
  | string hname =>
    obtain ⟨-, hswitch, hjump, hbranch, -⟩ := isSwitch_of_stringName hname
    exact ⟨hswitch, hjump, hbranch⟩

/-- The construction reads the targets of the first entries. -/
theorem SwitchTable.caseTargets (h : SwitchTable bytecodes last entries) :
    caseTargets bytecodes last = (entries.take 65536).map Prod.snd := by
  cases h with
  | @int jtOffset minCase maxCase hname hjt hmin hmax hlength hentry =>
    simp only [Decompile.caseTargets, (isSwitch_of_intName hname).1, Bool.false_eq_true, if_false,
      jumpTable, hjt, hmin, hmax, List.filterMap_filterMap, ← hlength]
    apply filterMap_range_eq
    intro k e he
    obtain ⟨hlen, -, htarget⟩ := hentry k e he
    rw [if_pos hlen, Option.bind_some, ← htarget, jumpEntry]
  | @string strTableOff numCases hname htable hcases hlength hentry =>
    simp only [Decompile.caseTargets, (isSwitch_of_stringName hname).1, if_true,
      stringSwitchTable, htable, hcases, List.filterMap_filterMap, ← hlength]
    apply filterMap_range_eq
    intro k e he
    obtain ⟨hlen, -, htarget⟩ := hentry k e he
    rw [if_pos hlen, Option.bind_some, ← htarget, stringEntryTarget]

/-- The label in the place of an entry is the label of the entry. -/
theorem SwitchTable.switchCases (h : SwitchTable bytecodes last entries) {b : BasicBlock}
    (hlast : b.instructions.getLast? = some last)
    (hids : b.switchStringIds = stringIdsOf bytecodes last) {k : Nat} {e : CaseLabel × Nat}
    (he : (entries.take 65536)[k]? = some e) (hk : k < b.successors.length - 1) :
    (switchCases b)[k]? = some e.1 := by
  have hentries : entries[k]? = some e := by
    rw [List.getElem?_take] at he
    split at he
    · exact he
    · cases he
  simp only [Decompile.switchCases, hlast, List.getElem?_map, List.getElem?_range hk,
    Option.map_some]
  cases h with
  | @int jtOffset minCase maxCase hname hjt hmin hmax hlength hentry =>
    obtain ⟨-, hlabel, -⟩ := hentry k e hentries
    simp only [(isSwitch_of_intName hname).1, Bool.false_eq_true, if_false, minCaseFromSwitch, hmin,
      hlabel]
  | @string strTableOff numCases hname htable hcases hlength hentry =>
    have hids' : b.switchStringIds = (entries.take 65536).map fun e =>
        match e.1 with
        | .string id => id
        | .const _ => 0 := by
      simp only [hids, stringIdsOf, (isSwitch_of_stringName hname).1, if_true, stringSwitchTable,
        htable, hcases, List.map_filterMap, ← hlength]
      apply filterMap_range_eq
      intro k e he
      obtain ⟨hlen, hlabel, -⟩ := hentry k e he
      rw [if_pos hlen, hlabel]
      rfl
    obtain ⟨-, hlabel, -⟩ := hentry k e hentries
    simp only [(isSwitch_of_stringName hname).1, if_true, hids', List.getElem?_map, he,
      Option.map_some, Option.getD_some, hlabel]

end Table

/-! ## Successors of a switch -/

section PushCase

variable {ids succs : List BlockId}

theorem foldl_pushCase_append (ids cases succs : List BlockId) :
    ∃ more, cases.foldl (pushCase ids) succs = succs ++ more ∧ more.length ≤ cases.length := by
  induction cases generalizing succs with
  | nil => exact ⟨[], by simp⟩
  | cons t cases ih =>
    rw [List.foldl_cons, pushCase]
    split
    · obtain ⟨more, heq, hlen⟩ := ih (succs ++ [t])
      exact ⟨t :: more, by simpa using heq, by simpa using hlen⟩
    · obtain ⟨more, heq, hlen⟩ := ih succs
      exact ⟨more, heq, by simp only [List.length_cons]; omega⟩

/-- New targets are appended as they come. -/
theorem foldl_pushCase_new {cases : List BlockId} (hnodup : (succs ++ cases).Nodup)
    (hids : ∀ t ∈ cases, t ∈ ids) : cases.foldl (pushCase ids) succs = succs ++ cases := by
  induction cases generalizing succs with
  | nil => simp
  | cons t cases ih =>
    obtain ⟨ht, hids⟩ := List.forall_mem_cons.mp hids
    have hnew : t ∉ succs := fun hmem =>
      (List.nodup_append.mp hnodup).2.2 t hmem t List.mem_cons_self rfl
    rw [List.foldl_cons, pushCase, if_pos ⟨ht, hnew⟩, ih (by simpa using hnodup) hids]
    simp

/-- Known targets are dropped. -/
theorem foldl_pushCase_old {cases : List BlockId} (hold : ∀ t ∈ cases, t ∈ succs) :
    cases.foldl (pushCase ids) succs = succs := by
  induction cases with
  | nil => rfl
  | cons t cases ih =>
    obtain ⟨ht, hold⟩ := List.forall_mem_cons.mp hold
    rw [List.foldl_cons, pushCase, if_neg (fun h => h.2 ht), ih hold]

end PushCase

/-- What a switch block of a graph is made of. -/
structure SwitchBlock (insts : List DecodedInst) (bytecodes : List UInt8) (ids : List BlockId)
    (last : DecodedInst) (b : BasicBlock) : Prop where
  getLast : b.instructions.getLast? = some last
  stringIds : b.switchStringIds = stringIdsOf bytecodes last
  successors : b.successors =
    (caseTargets bytecodes last).foldl (pushCase ids) (knownTarget ids (defaultTarget last))
  known : ∀ p, defaultTarget last = some p ∨ p ∈ caseTargets bytecodes last →
    (p ∈ ids ↔ ∃ i ∈ insts, i.offset = p)

/-- The boundaries of a switch are its targets. -/
theorem isBoundary_of_switch {insts : List DecodedInst} {excHandlers : List ExcHandler}
    {bytecodes : List UInt8} {last : DecodedInst} (hmem : last ∈ insts)
    (hswitch : last.isSwitch = true) {p : Nat}
    (hp : defaultTarget last = some p ∨ p ∈ caseTargets bytecodes last) :
    IsBoundary insts excHandlers bytecodes p := by
  refine Or.inr (Or.inl ⟨last, hmem, ?_⟩)
  simp only [instBoundaries, hswitch, if_true, List.mem_append, Option.mem_toList]
  exact Or.inr hp

section Switch

variable {insts : List DecodedInst} {excHandlers : List ExcHandler} {bytecodes : List UInt8}
  {boundaries : OrdSet Nat} {cfg : Cfg} {hi : Nat} {last inst : DecodedInst}

theorem Built.switchBlock (h : Built insts excHandlers bytecodes boundaries cfg)
    (htiles : InstTiles 0 hi insts) (hswitch : last.isSwitch = true)
    (hjump : last.isUnconditionalJump = false) (hbranch : last.isConditionalBranch = false)
    {b : BasicBlock} (hb : b ∈ cfg.blocks.values) (hlast : b.instructions.getLast? = some last) :
    SwitchBlock insts bytecodes cfg.blocks.keys last b := by
  have hkeys := h.keys
  rw [h.values] at hb
  obtain ⟨part, hpart, rfl⟩ := List.mem_map.mp hb
  have hmem := mem_of_mem_parts hpart (List.mem_of_getLast? hlast)
  have hlast : part.getLast? = some last := hlast
  refine ⟨hlast, by simp only [builtBlock, hlast, Option.elim_some], ?_, fun p hp => ?_⟩
  · simp only [builtBlock, partSuccessors, hlast, hkeys]
    exact successorsOf_switch hswitch hjump hbranch
  · have hzero : 0 ∈ boundaries.keys := (h.boundary 0).mpr (Or.inl rfl)
    rw [hkeys, mem_starts htiles hzero, and_iff_left]
    exact (h.boundary p).mpr (isBoundary_of_switch hmem hswitch hp)

/-- A terminator is the last instruction of a block. -/
theorem Built.exists_getLast? (h : Built insts excHandlers bytecodes boundaries cfg)
    (htiles : InstTiles 0 hi insts) (hmem : inst ∈ insts) (hterm : inst.isTerminator) :
    ∃ b ∈ cfg.blocks.values, b.instructions.getLast? = some inst := by
  have hboundary : ∀ inst ∈ insts, inst.isTerminator → inst.stop ∈ boundaries.keys := by
    intro inst hinst hterm
    refine (h.boundary _).mpr (Or.inr (Or.inl ⟨inst, hinst, ?_⟩))
    simp [instBoundaries, hterm]
  have hflat := hmem
  rw [← parts_flatten boundaries insts] at hflat
  obtain ⟨part, hpart, hinst⟩ := List.mem_flatten.mp hflat
  refine ⟨builtBlock excHandlers bytecodes (parts boundaries insts) part, ?_,
    getLast?_of_terminator hboundary htiles hpart hinst hterm⟩
  rw [h.values]
  exact List.mem_map_of_mem hpart

end Switch

section Build

variable {t : OpcodeTables} {code bytecodes : List UInt8} {insts : List DecodedInst}
  {excHandlers : List ExcHandler} {cfg : Cfg} {inst : DecodedInst}

theorem build_switchBlock (hdecode : decodeFunction t code = .ok insts)
    (hbuild : Cfg.build insts excHandlers bytecodes = .ok cfg) (hne : insts ≠ [])
    (hswitch : inst.isSwitch = true) (hjump : inst.isUnconditionalJump = false)
    (hbranch : inst.isConditionalBranch = false) {b : BasicBlock} (hb : b ∈ cfg.blocks.values)
    (hlast : b.instructions.getLast? = some inst) :
    SwitchBlock insts bytecodes cfg.blocks.keys inst b := by
  have htiles := fun hfits => (decodeFunction_spec hdecode).tiles hfits (Nat.zero_le _)
  obtain ⟨boundaries, hbuilt⟩ := build_built hne htiles hbuild
  exact hbuilt.switchBlock (htiles hbuilt.fits) hswitch hjump hbranch hb hlast

theorem build_exists_getLast? (hdecode : decodeFunction t code = .ok insts)
    (hbuild : Cfg.build insts excHandlers bytecodes = .ok cfg) (hmem : inst ∈ insts)
    (hterm : inst.isTerminator) :
    ∃ b ∈ cfg.blocks.values, b.instructions.getLast? = some inst := by
  have htiles := fun hfits => (decodeFunction_spec hdecode).tiles hfits (Nat.zero_le _)
  obtain ⟨boundaries, hbuilt⟩ := build_built (List.ne_nil_of_mem hmem) htiles hbuild
  exact hbuilt.exists_getLast? (htiles hbuilt.fits) hmem hterm

end Build

/-! ## Labels and tables -/

section Labels

variable {insts : List DecodedInst} {bytecodes : List UInt8} {ids : List BlockId}
  {last : DecodedInst} {b : BasicBlock} {entries : List (CaseLabel × Nat)}

/-- The pairs stand in the places of the entries, with their labels. -/
theorem SwitchBlock.casePairs_getElem? (h : SwitchBlock insts bytecodes ids last b)
    (htable : SwitchTable bytecodes last entries) {first : BlockId} {more : List BlockId}
    (hsuccs : b.successors = first :: more) {k : Nat} {e : CaseLabel × Nat}
    (he : (entries.take 65536)[k]? = some e) :
    (casePairs b)[k]? = more[k]?.map fun s => (e.1, s) := by
  rw [casePairs, List.zip, List.getElem?_zipWith, hsuccs, List.tail_cons]
  cases hmore : more[k]? with
  | none => cases (switchCases b)[k]? <;> rfl
  | some s =>
    have hk : k < b.successors.length - 1 := by
      have := (List.getElem?_eq_some_iff.mp hmore).1
      simpa [hsuccs] using this
    rw [htable.switchCases h.getLast h.stringIds he hk]
    rfl

theorem SwitchBlock.casePairs_snd (h : SwitchBlock insts bytecodes ids last b)
    {first : BlockId} {more : List BlockId} (hsuccs : b.successors = first :: more) :
    (casePairs b).map Prod.snd = more := by
  rw [casePairs, hsuccs, List.tail_cons, List.map_snd_zip]
  simp [switchCases, h.getLast, hsuccs]

/-- With a default block, the successors behind it are the table without its
defaults exactly where the labels follow the table. -/
theorem SwitchBlock.labelsFollow_iff_of_default (h : SwitchBlock insts bytecodes ids last b)
    (htable : SwitchTable bytecodes last entries)
    (hstarts : ∀ e ∈ entries, ∃ i ∈ insts, i.offset = e.2) {d : Nat}
    (hdefault : defaultTarget last = some d) (hd : d ∈ ids) :
    LabelsFollow entries (some d) b ↔ ∃ n ≤ 65536, ((entries.take n).map Prod.snd).Nodup ∧
      (∀ e ∈ entries.take n, some e.2 ≠ some d) ∧ ∀ e ∈ entries.drop n, some e.2 = some d := by
  have hcases := htable.caseTargets
  have hknown : knownTarget ids (defaultTarget last) = [d] := by
    simp [knownTarget, hdefault, hd]
  have hids : ∀ t ∈ (entries.take 65536).map Prod.snd, t ∈ ids := by
    intro t ht
    refine (h.known t (Or.inr (hcases ▸ ht))).mpr ?_
    obtain ⟨e, he, rfl⟩ := List.mem_map.mp ht
    exact hstarts e (List.mem_of_mem_take he)
  have hsuccs := h.successors
  rw [hcases, hknown] at hsuccs
  constructor
  · rintro ⟨hsound, hcomplete⟩
    obtain ⟨more, heq, hlen⟩ := foldl_pushCase_append ids ((entries.take 65536).map Prod.snd) [d]
    have hnodup : (d :: more).Nodup := by
      have := (@foldl_pushCase ids ((entries.take 65536).map Prod.snd) [d]
        (List.nodup_singleton d) (by simpa using hd)).1
      rwa [heq] at this
    have hsnd : (casePairs b).map Prod.snd = more := h.casePairs_snd (hsuccs.trans heq)
    have hfront : casePairs b = entries.take (casePairs b).length := by
      refine List.prefix_iff_eq_take.mp (List.prefix_iff_getElem?.mpr fun k hk => ?_)
      exact hsound k _ (List.getElem?_eq_getElem hk)
    have htake : (entries.take (casePairs b).length).map Prod.snd = more := by
      rw [← hfront, hsnd]
    refine ⟨(casePairs b).length, ?_, htake ▸ hnodup.of_cons, fun e he heq => ?_, fun e he => ?_⟩
    · have hpairs : (casePairs b).length = more.length := by rw [← hsnd, List.length_map]
      rw [List.length_map, List.length_take] at hlen
      omega
    · refine (List.nodup_cons.mp hnodup).1 ?_
      rw [← htake, ← Option.some.inj heq]
      exact List.mem_map_of_mem he
    · by_contra hne
      obtain ⟨j, hj⟩ := List.mem_iff_getElem?.mp he
      rw [List.getElem?_drop] at hj
      have := (List.getElem?_eq_some_iff.mp (hcomplete _ e hj hne)).1
      omega
  · rintro ⟨n, hn, hnodup, hnew, hold⟩
    have hsplit : entries.take 65536 = entries.take n ++ (entries.drop n).take (65536 - n) := by
      rw [← List.take_add, Nat.add_sub_cancel' hn]
    have hfront : ((entries.take n).map Prod.snd).foldl (pushCase ids) [d] =
        [d] ++ (entries.take n).map Prod.snd := by
      refine foldl_pushCase_new (List.nodup_append.mpr ⟨List.nodup_singleton d, hnodup, ?_⟩) ?_
      · intro s hs t ht heq
        obtain ⟨e, he, rfl⟩ := List.mem_map.mp ht
        rw [List.mem_singleton] at hs
        exact hnew e he (by rw [← heq, hs])
      · intro t ht
        refine hids t ?_
        rw [hsplit, List.map_append]
        exact List.mem_append_left _ ht
    have hrest : ∀ t ∈ ((entries.drop n).take (65536 - n)).map Prod.snd,
        t ∈ [d] ++ (entries.take n).map Prod.snd := by
      intro t ht
      obtain ⟨e, he, rfl⟩ := List.mem_map.mp ht
      rw [Option.some.inj (hold e (List.mem_of_mem_take he))]
      simp
    rw [hsplit, List.map_append, List.foldl_append, hfront, foldl_pushCase_old hrest,
      List.singleton_append] at hsuccs
    -- the entries in front have their pairs
    have hpair : ∀ k e, k < n → entries[k]? = some e → (casePairs b)[k]? = some e := by
      intro k e hk he
      have htake : (entries.take n)[k]? = some e := by rw [List.getElem?_take_of_lt hk, he]
      rw [h.casePairs_getElem? htable hsuccs
        (by rw [List.getElem?_take_of_lt (Nat.lt_of_lt_of_le hk hn), he]), List.getElem?_map,
        htake]
      rfl
    constructor
    · intro k p hp
      have hlt := (List.getElem?_eq_some_iff.mp hp).1
      rw [← List.length_map (f := Prod.snd), h.casePairs_snd hsuccs, List.length_map,
        List.length_take] at hlt
      have he := List.getElem?_eq_getElem (l := entries) (i := k) (by omega)
      rw [hpair k _ (by omega) he] at hp
      rw [he, hp]
    · intro k e he hne
      refine hpair k e ?_ he
      by_contra hk
      refine hne (hold e (List.mem_iff_getElem?.mpr ⟨k - n, ?_⟩))
      rw [List.getElem?_drop, Nat.add_sub_cancel' (by omega), he]

/-- Without a default block the first case is taken for the default. -/
theorem SwitchBlock.not_labelsFollow (h : SwitchBlock insts bytecodes ids last b)
    (htable : SwitchTable bytecodes last entries)
    (hstarts : ∀ e ∈ entries, ∃ i ∈ insts, i.offset = e.2) (hne : entries ≠ [])
    (hdefault : ∀ i ∈ insts, defaultTarget last ≠ some i.offset) :
    ¬ LabelsFollow entries (defaultTarget last) b := by
  rintro ⟨-, hcomplete⟩
  have hcases := htable.caseTargets
  have hknown : knownTarget ids (defaultTarget last) = [] := by
    rw [List.eq_nil_iff_forall_not_mem]
    intro p hp
    obtain ⟨hp, hid⟩ := mem_knownTarget.mp hp
    obtain ⟨i, hi, rfl⟩ := (h.known p (Or.inl hp)).mp hid
    exact hdefault i hi hp
  obtain ⟨e, rest, rfl⟩ := List.exists_cons_of_ne_nil hne
  obtain ⟨i, hi, hie⟩ := hstarts e List.mem_cons_self
  have hid : e.2 ∈ ids := by
    refine (h.known e.2 (Or.inr ?_)).mpr ⟨i, hi, hie⟩
    rw [hcases]
    exact List.mem_map_of_mem (by simp [List.take_succ_cons])
  have hsuccs := h.successors
  rw [hcases, hknown, List.take_succ_cons, List.map_cons, List.foldl_cons, pushCase,
    if_pos ⟨hid, List.not_mem_nil⟩] at hsuccs
  obtain ⟨more, heq, -⟩ := foldl_pushCase_append ids ((rest.take 65535).map Prod.snd) [e.2]
  have hnodup : (e.2 :: more).Nodup := by
    have := (@foldl_pushCase ids ((rest.take 65535).map Prod.snd) [e.2]
      (List.nodup_singleton e.2) (by simpa using hid)).1
    rwa [heq] at this
  have hsnd : (casePairs b).map Prod.snd = more := h.casePairs_snd (hsuccs.trans heq)
  have hpair := hcomplete 0 e rfl fun hd => hdefault i hi (by rw [← hd, hie])
  refine (List.nodup_cons.mp hnodup).1 ?_
  rw [← hsnd]
  exact List.mem_map_of_mem (List.mem_of_getElem? hpair)

theorem SwitchBlock.labelsFollow_iff (h : SwitchBlock insts bytecodes ids last b)
    (htable : SwitchTable bytecodes last entries)
    (hstarts : ∀ e ∈ entries, ∃ i ∈ insts, i.offset = e.2) :
    LabelsFollow entries (defaultTarget last) b ↔
      CasesFirst insts entries (defaultTarget last) := by
  by_cases hne : entries = []
  · subst hne
    have hpairs : casePairs b = [] := by
      have hsuccs := h.successors
      rw [htable.caseTargets, List.take_nil, List.map_nil, List.foldl_nil] at hsuccs
      rw [casePairs, hsuccs]
      cases hd : defaultTarget last with
      | none => simp [knownTarget]
      | some d => by_cases hid : d ∈ ids <;> simp [knownTarget, hid]
    exact iff_of_true ⟨by simp [hpairs], by simp⟩ (Or.inl rfl)
  · simp only [CasesFirst, hne, false_or]
    by_cases hdefault : ∃ i ∈ insts, defaultTarget last = some i.offset
    · obtain ⟨i, hi, hd⟩ := id hdefault
      simp only [hdefault, true_and]
      rw [hd]
      exact h.labelsFollow_iff_of_default htable hstarts hd
        ((h.known i.offset (Or.inl hd)).mpr ⟨i, hi, rfl⟩)
    · simp only [hdefault, false_and, iff_false]
      exact h.not_labelsFollow htable hstarts hne fun i hi hd => hdefault ⟨i, hi, hd⟩

end Labels

/-- The labels of a switch block follow its table exactly where the default is an
instruction and the cases, with distinct targets, come before the gaps. -/
theorem switchLabels_iff {t : OpcodeTables} {code bytecodes : List UInt8}
    {insts : List DecodedInst} {excHandlers : List ExcHandler} {cfg : Cfg} {b : BasicBlock}
    {last : DecodedInst} {entries : List (CaseLabel × Nat)}
    (hdecode : decodeFunction t code = .ok insts)
    (hbuild : Cfg.build insts excHandlers bytecodes = .ok cfg) (hb : b ∈ cfg.blocks.values)
    (hlast : b.instructions.getLast? = some last) (htable : SwitchTable bytecodes last entries)
    (hstarts : ∀ e ∈ entries, ∃ i ∈ insts, i.offset = e.2) :
    LabelsFollow entries (defaultTarget last) b ↔
      CasesFirst insts entries (defaultTarget last) := by
  have hne : insts ≠ [] := by
    rintro rfl
    rw [Cfg.build, if_pos rfl] at hbuild
    cases hbuild
    cases List.mem_singleton.mp hb
    cases hlast
  obtain ⟨hswitch, hjump, hbranch⟩ := htable.jumps
  exact (build_switchBlock hdecode hbuild hne hswitch hjump hbranch hb hlast).labelsFollow_iff
    htable hstarts

/-- A switch over 0, 1 and 2, three returns, and the table with the given targets. -/
def switchCode : List UInt8 :=
  [133, 0, 24, 0, 0, 0, 18, 0, 0, 0, 0, 0, 0, 0, 2, 0, 0, 0, 92, 0, 92, 1, 92, 2]

def switchWindow (targets : List UInt8) : List UInt8 :=
  switchCode ++ targets.flatMap fun t => [t, 0, 0, 0]

def switchInst : DecodedInst :=
  ⟨0, 18, "SwitchImm", [.reg 0, .uint 24, .addr 18, .uint 0, .uint 2]⟩

def switchInsts : List DecodedInst :=
  [switchInst, ⟨18, 2, "Ret", [.reg 0]⟩, ⟨20, 2, "Ret", [.reg 1]⟩, ⟨22, 2, "Ret", [.reg 2]⟩]

def switchEntries (t₀ t₁ t₂ : Nat) : List (CaseLabel × Nat) :=
  [(.const "0", t₀), (.const "1", t₁), (.const "2", t₂)]

/-- With the default in the last place. -/
theorem switchTable_sample :
    SwitchTable (switchWindow [20, 22, 18]) switchInst (switchEntries 20 22 18) := by
  refine .int (Or.inl rfl) rfl rfl rfl rfl fun k e he => ?_
  match k with
  | 0 | 1 | 2 =>
    cases he
    decide
  | k + 3 => cases he

theorem switchLabels_iff_sample : ∃ cfg b,
    Cfg.build switchInsts [] (switchWindow [20, 22, 18]) = .ok cfg ∧ b ∈ cfg.blocks.values ∧
      b.instructions.getLast? = some switchInst ∧
      LabelsFollow (switchEntries 20 22 18) (defaultTarget switchInst) b := by
  obtain ⟨cfg, hbuild, hblock⟩ := @Loop.exists_of_okAnd _ _
    (Cfg.build switchInsts [] (switchWindow [20, 22, 18]))
    (fun cfg => ∃ b ∈ cfg.blocks.values, b.instructions.getLast? = some switchInst)
    (by decide)
  obtain ⟨b, hb, hlast⟩ := of_decide_eq_true hblock
  have hdecode : decodeFunction v95Tables switchCode = .ok switchInsts := by decide +kernel
  refine ⟨cfg, b, hbuild, hb, hlast, (switchLabels_iff hdecode hbuild hb hlast switchTable_sample
    (by decide)).mpr (Or.inr ⟨by decide, 2, by omega, by decide, by decide, by decide⟩)⟩

/-- With one target for two cases, the label of the second goes to the target of
the third. -/
theorem switchLabels_shared :
    decodeFunction v95Tables switchCode = .ok switchInsts ∧
    SwitchTable (switchWindow [20, 20, 22]) switchInst (switchEntries 20 20 22) ∧
    (∀ e ∈ switchEntries 20 20 22, ∃ i ∈ switchInsts, i.offset = e.2) ∧
    ∃ cfg b, Cfg.build switchInsts [] (switchWindow [20, 20, 22]) = .ok cfg ∧
      b ∈ cfg.blocks.values ∧ b.instructions.getLast? = some switchInst ∧
      (casePairs b)[1]? = some (.const "1", 22) ∧
      ¬ LabelsFollow (switchEntries 20 20 22) (defaultTarget switchInst) b := by
  obtain ⟨cfg, hbuild, hblock⟩ := @Loop.exists_of_okAnd _ _
    (Cfg.build switchInsts [] (switchWindow [20, 20, 22]))
    (fun cfg => ∃ b ∈ cfg.blocks.values, b.instructions.getLast? = some switchInst ∧
      (casePairs b)[1]? = some (.const "1", 22)) (by decide)
  obtain ⟨b, hb, hlast, hpair⟩ := of_decide_eq_true hblock
  refine ⟨by decide +kernel, ?_, by decide, cfg, b, hbuild, hb, hlast, hpair, fun h => ?_⟩
  · refine .int (Or.inl rfl) rfl rfl rfl rfl fun k e he => ?_
    match k with
    | 0 | 1 | 2 =>
      cases he
      decide
    | k + 3 => cases he
  · have hentry := h.sound 1 _ hpair
    revert hentry
    decide

end Hermes.Decompile
