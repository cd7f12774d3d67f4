-- SUMMARY: The bytecode scanner, and that its references are the operands of the decoded instructions.
import DroidsawHermes.Decompile.DecodeTiles
import DroidsawHermes.Decompile.Opcodes
import DroidsawHermes.Decompile.TablesV95
import DroidsawHermes.Lib.Runs
import DroidsawHermes.Parser.Validate

/-!
# The scanner

`scanner.rs`. The scanner walks the bodies with the size table alone and reads
operands by byte offset; the decoder walks them with the schemas. Both see the same
instructions of a body that decodes.
-/

open Bytes

namespace Hermes

open Decompile

/-! ## Tables -/

/-- `VersionTables` without the sizes: opcode, byte offset and size of an operand. -/
structure ScanTables where
  strOps : List (UInt8 × UInt8 × UInt8)
  callOps : List (UInt8 × UInt8 × UInt8)

/-- `OpLookup::build` of one list. A later entry of an opcode replaces an earlier one. -/
def opLookup (ops : List (UInt8 × UInt8 × UInt8)) : UInt8 → Option (UInt8 × UInt8) :=
  ops.foldl (fun table e => Function.update table e.1 (some e.2)) fun _ => none

/-- The entry of an instruction that creates a closure. Its function id stands behind
the opcode and two registers. -/
def closureEntry (name : String) : Option (UInt8 × UInt8) :=
  if startsWith name "CreateClosure" || startsWith name "CreateAsyncClosure"
      || startsWith name "CreateGeneratorClosure" || name = "CreateGenerator"
      || name = "CreateGeneratorLongIndex" then
    let opSize := if "LongIndex".toList <:+ name.toList ∨ "Long".toList <:+ name.toList then 4 else 2
    some (3, opSize)
  else none

def closureOps (names : List String) (opcode : UInt8) : Option (UInt8 × UInt8) :=
  names[opcode.toNat]?.bind closureEntry

/-! ## The walk -/

structure ScanResult where
  stringRefs : OrdMap Nat (List Nat)
  callGraph : OrdMap Nat (List Nat)
  closureRefs : OrdMap Nat (List Nat)
  deriving DecidableEq

def ScanResult.empty : ScanResult := ⟨.empty, .empty, .empty⟩

structure ScanMode where
  xrefs : Bool
  callgraph : Bool

def readOperand (code : List UInt8) (pos size : Nat) : Option Nat :=
  match get? code pos (pos + size) with
  | none => none
  | some bytes =>
    match size with
    | 1 | 2 | 4 => some (ofLE bytes)
    | _ => none

/-- The index below `bound` that the instruction at `pos` has in its table entry. -/
def operandRef (entry : UInt8 → Option (UInt8 × UInt8)) (code : List UInt8) (bound pos : Nat)
    (opcode : UInt8) : Option Nat :=
  match entry opcode with
  | none => none
  | some (byteOff, opSize) =>
    match readOperand code (pos + byteOff.toNat) opSize.toNat with
    | none => none
    | some id => if id < bound then some id else none

section Walk

variable (f : HbcFile) (t : OpcodeTables) (ops : ScanTables) (mode : ScanMode)

/-- One round of the loop over the body of function `fi`. -/
def scanInst (fi : Nat) (code : List UInt8) (r : ScanResult) (pos : Nat) (opcode : UInt8) :
    ScanResult where
  stringRefs :=
    if mode.xrefs then
      match operandRef (opLookup ops.strOps) code f.stringCount pos opcode with
      | some strId => Runs.pushAt r.stringRefs strId fi
      | none => r.stringRefs
    else r.stringRefs
  callGraph :=
    if mode.callgraph then
      match operandRef (opLookup ops.callOps) code f.functionCount pos opcode with
      | some callee => Runs.pushAt r.callGraph fi callee
      | none => r.callGraph
    else r.callGraph
  closureRefs :=
    if mode.callgraph then
      match operandRef (closureOps t.names) code f.functionCount pos opcode with
      | some target => Runs.pushAt r.closureRefs fi target
      | none => r.closureRefs
    else r.closureRefs

/-- The loop from `pos` on; it ends at an opcode without a size and at a cut
instruction. -/
def scanFrom (fi : Nat) (code : List UInt8) : Nat → Nat → ScanResult → ScanResult
  | 0, _, r => r
  | fuel + 1, pos, r =>
    match code[pos]? with
    | none => r
    | some opcode =>
      match t.sizes[opcode.toNat]? with
      | none => r
      | some instSize =>
        if instSize = 0 ∨ pos + instSize.toNat > code.length then r
        else scanFrom fi code fuel (pos + instSize.toNat)
          (scanInst f t ops mode fi code r pos opcode)

/-- The body of a function that is scanned. -/
def scannedBody (data : List UInt8) (fi : Nat) : Option (List UInt8) :=
  if f.isFunctionUnrecognized fi then none
  else
    let d := f.functionGet fi
    if d.size = 0 ∨ d.offset + d.size > data.length then none
    else some (slice data d.offset (d.offset + d.size))

/-- `scan_parsed_with_mode`, with the tables of a supported version. -/
def scanParsedWithMode (data : List UInt8) : ScanResult :=
  (List.range f.functionCount).foldl (fun r fi =>
    match scannedBody f data fi with
    | none => r
    | some code => scanFrom f t ops mode fi code code.length 0 r) .empty

end Walk

def scanParsed (f : HbcFile) (t : OpcodeTables) (ops : ScanTables) (data : List UInt8) :
    ScanResult :=
  scanParsedWithMode f t ops ⟨true, true⟩ data

/-! ## References of a body -/

/-- The instructions that the sizes alone give, with their opcodes. -/
def instStarts (sizes code : List UInt8) : Nat → Nat → List (Nat × UInt8)
  | 0, _ => []
  | fuel + 1, pos =>
    match code[pos]? with
    | none => []
    | some opcode =>
      match sizes[opcode.toNat]? with
      | none => []
      | some size =>
        if size = 0 ∨ pos + size.toNat > code.length then []
        else (pos, opcode) :: instStarts sizes code fuel (pos + size.toNat)

/-- The references of a function through a table, in the order of its code. -/
def refsOf (f : HbcFile) (t : OpcodeTables) (data : List UInt8)
    (entry : UInt8 → Option (UInt8 × UInt8)) (bound fi : Nat) : List Nat :=
  match scannedBody f data fi with
  | none => []
  | some code => (instStarts t.sizes code code.length 0).filterMap fun i =>
      operandRef entry code bound i.1 i.2

/-- All references through a table, as pairs of function and target. -/
def allRefs (f : HbcFile) (t : OpcodeTables) (data : List UInt8)
    (entry : UInt8 → Option (UInt8 × UInt8)) (bound : Nat) : List (Nat × Nat) :=
  (List.range f.functionCount).flatMap fun fi => (refsOf f t data entry bound fi).map (fi, ·)

section Fold

variable {f : HbcFile} {t : OpcodeTables} {ops : ScanTables} {mode : ScanMode}

theorem scanFrom_eq_foldl {fi : Nat} {code : List UInt8} (fuel pos : Nat) (r : ScanResult) :
    scanFrom f t ops mode fi code fuel pos r =
      (instStarts t.sizes code fuel pos).foldl
        (fun r i => scanInst f t ops mode fi code r i.1 i.2) r := by
  induction fuel generalizing pos r with
  | zero => rfl
  | succ fuel ih =>
    simp only [scanFrom, instStarts]
    split
    · rfl
    · split
      · rfl
      · split
        · rfl
        · rw [ih, List.foldl_cons]

/-- A field to which every round pushes its reference has all references pushed. -/
theorem scanParsedWithMode_field {data : List UInt8} (field : ScanResult → OrdMap Nat (List Nat))
    {entry : UInt8 → Option (UInt8 × UInt8)} {bound : Nat} {key : Nat × Nat → Nat × Nat}
    (hempty : field .empty = .empty)
    (hfield : ∀ fi code r pos opcode, field (scanInst f t ops mode fi code r pos opcode) =
      match operandRef entry code bound pos opcode with
      | some id => Runs.pushAt (field r) (key (fi, id)).1 (key (fi, id)).2
      | none => field r) :
    field (scanParsedWithMode f t ops mode data) =
      ((allRefs f t data entry bound).map key).foldl (fun m e => Runs.pushAt m e.1 e.2) .empty := by
  have hbody : ∀ fi code (starts : List (Nat × UInt8)) r,
      field (starts.foldl (fun r i => scanInst f t ops mode fi code r i.1 i.2) r) =
        ((starts.filterMap fun i => operandRef entry code bound i.1 i.2).map
          fun id => key (fi, id)).foldl (fun m e => Runs.pushAt m e.1 e.2) (field r) := by
    intro fi code starts
    induction starts with
    | nil => exact fun _ => rfl
    | cons i starts ih =>
      intro r
      rw [List.foldl_cons, ih, hfield]
      cases href : operandRef entry code bound i.1 i.2 with
      | none => simp [href]
      | some id => simp [href]
  have hall : ∀ (fns : List Nat) r,
      field (fns.foldl (fun r fi =>
        match scannedBody f data fi with
        | none => r
        | some code => scanFrom f t ops mode fi code code.length 0 r) r) =
      ((fns.flatMap fun fi => (refsOf f t data entry bound fi).map (fi, ·)).map key).foldl
        (fun m e => Runs.pushAt m e.1 e.2) (field r) := by
    intro fns
    induction fns with
    | nil => exact fun _ => rfl
    | cons fi fns ih =>
      intro r
      rw [List.foldl_cons, ih, List.flatMap_cons, List.map_append, List.foldl_append]
      congr 1
      simp only [refsOf]
      split
      · rfl
      · rw [scanFrom_eq_foldl, hbody, List.map_map]
        rfl
  rw [scanParsedWithMode, hall, hempty]
  rfl

end Fold

/-! ## What is listed -/

/-- The list of a key has the value. -/
def Listed (m : OrdMap Nat (List Nat)) (k v : Nat) : Prop := ∃ l, m.get? k = some l ∧ v ∈ l

section Listed

variable {f : HbcFile} {t : OpcodeTables} {ops : ScanTables} {data : List UInt8}

theorem listed_foldl_pushAt {l : List (Nat × Nat)} {k v : Nat} :
    Listed (l.foldl (fun m e => Runs.pushAt m e.1 e.2) .empty) k v ↔ (k, v) ∈ l := by
  rw [Listed, Runs.get?_foldl_pushAt, ← Runs.mem_valuesOf]
  split
  · next hnil => simp [hnil]
  · simp

theorem mem_allRefs {entry : UInt8 → Option (UInt8 × UInt8)} {bound fi id : Nat} :
    (fi, id) ∈ allRefs f t data entry bound ↔
      fi < f.functionCount ∧ id ∈ refsOf f t data entry bound fi := by
  simp [allRefs]

theorem valuesOf_allRefs {entry : UInt8 → Option (UInt8 × UInt8)} {bound fi : Nat} :
    Runs.valuesOf fi (allRefs f t data entry bound) =
      if fi < f.functionCount then refsOf f t data entry bound fi else [] := by
  rw [allRefs]
  induction f.functionCount with
  | zero => rfl
  | succ n ih =>
    rw [List.range_succ, List.flatMap_append, Runs.valuesOf_append, ih, List.flatMap_singleton]
    rcases Nat.lt_trichotomy fi n with hlt | rfl | hgt
    · rw [if_pos hlt, if_pos (by omega), Runs.valuesOf_map_ne (by omega), List.append_nil]
    · rw [if_neg (by omega), if_pos (by omega), Runs.valuesOf_map_self, List.nil_append]
    · rw [if_neg (by omega), if_neg (by omega), Runs.valuesOf_map_ne (by omega), List.append_nil]

/-- The functions that refer to one target come in ascending order. -/
theorem valuesOf_swap_allRefs_sorted {entry : UInt8 → Option (UInt8 × UInt8)} {bound id : Nat} :
    (Runs.valuesOf id ((allRefs f t data entry bound).map Prod.swap)).Pairwise (· ≤ ·) := by
  rw [allRefs]
  induction f.functionCount with
  | zero => exact List.Pairwise.nil
  | succ n ih =>
    rw [List.range_succ, List.flatMap_append, List.map_append, Runs.valuesOf_append,
      List.flatMap_singleton]
    have hlast : ∀ v ∈ Runs.valuesOf id
        (((refsOf f t data entry bound n).map (n, ·)).map Prod.swap), v = n := by
      intro v hv
      rw [Runs.mem_valuesOf] at hv
      simp at hv
      exact hv.2.symm
    refine List.pairwise_append.mpr ⟨ih, ?_, ?_⟩
    · exact List.pairwise_of_forall_mem_list fun v hv w hw => (hlast v hv).trans_le (hlast w hw).ge
    · intro v hv w hw
      rw [hlast w hw]
      rw [Runs.mem_valuesOf] at hv
      simp at hv
      exact hv.1.le

theorem stringRefs_eq : (scanParsed f t ops data).stringRefs =
    ((allRefs f t data (opLookup ops.strOps) f.stringCount).map Prod.swap).foldl
      (fun m e => Runs.pushAt m e.1 e.2) .empty :=
  scanParsedWithMode_field ScanResult.stringRefs rfl fun _ _ _ _ _ => rfl

theorem callGraph_eq : (scanParsed f t ops data).callGraph =
    (allRefs f t data (opLookup ops.callOps) f.functionCount).foldl
      (fun m e => Runs.pushAt m e.1 e.2) .empty := by
  rw [← List.map_id (allRefs f t data (opLookup ops.callOps) f.functionCount)]
  exact scanParsedWithMode_field ScanResult.callGraph rfl fun _ _ _ _ _ => rfl

theorem closureRefs_eq : (scanParsed f t ops data).closureRefs =
    (allRefs f t data (closureOps t.names) f.functionCount).foldl
      (fun m e => Runs.pushAt m e.1 e.2) .empty := by
  rw [← List.map_id (allRefs f t data (closureOps t.names) f.functionCount)]
  exact scanParsedWithMode_field ScanResult.closureRefs rfl fun _ _ _ _ _ => rfl

end Listed

/-! ## Decoded instructions -/

/-- The value of an operand that is an index or a register. -/
def Decompile.Operand.id? : Operand → Option Nat
  | .reg r | .reg32 r => some r
  | .uint n => some n
  | .int _ | .double _ | .addr _ => none

def Decompile.OpType.isUnsigned : OpType → Bool
  | .R | .R4 | .U1 | .U2 | .U4 => true
  | .A1 | .A4 | .I4 | .D => false

/-- The byte offset and size of an entry are those of field `k` of the schema. -/
def NamesField (types : List OpType) (e : UInt8 × UInt8) (k : Nat) : Prop :=
  ∃ ot, types[k]? = some ot ∧ ot.isUnsigned = true ∧
    e.1.toNat = 1 + fieldsWidth (types.take k) ∧ e.2.toNat = ot.byteSize

/-- Every entry of an opcode names one field of its schema. -/
def FieldsNamed (t : OpcodeTables) (entry : UInt8 → Option (UInt8 × UInt8)) : Prop :=
  ∀ opcode e, opcode.toNat < t.sizes.length → entry opcode = some e →
    ∃ k, NamesField (t.getSchema opcode.toNat).2 e k

/-- Some instruction with a table entry has the id at the field that the entry names. -/
def RefersTo (t : OpcodeTables) (code : List UInt8) (insts : List DecodedInst)
    (entry : UInt8 → Option (UInt8 × UInt8)) (id : Nat) : Prop :=
  ∃ inst ∈ insts, ∃ opcode e k, code[inst.offset]? = some opcode ∧ entry opcode = some e ∧
    NamesField (t.getSchema opcode.toNat).2 e k ∧
    inst.operands[k]?.bind Operand.id? = some id

section Decoded

variable {t : OpcodeTables} {code : List UInt8} {entry : UInt8 → Option (UInt8 × UInt8)}
  {bound : Nat}

theorem getElem?_fieldsAt (types : List OpType) (pos k : Nat) :
    (fieldsAt code types pos)[k]? = types[k]?.map fun ot =>
      decodeOperand ot (slice code (pos + fieldsWidth (types.take k))
        (pos + fieldsWidth (types.take k) + ot.byteSize)) := by
  induction types generalizing pos k with
  | nil => simp [fieldsAt]
  | cons ot rest ih =>
    cases k with
    | zero => simp [fieldsAt, fieldsWidth]
    | succ k =>
      have hwidth : pos + fieldsWidth ((ot :: rest).take (k + 1)) =
          pos + ot.byteSize + fieldsWidth (rest.take k) := by
        simp [fieldsWidth, Nat.add_assoc]
      rw [hwidth]
      simp only [fieldsAt, List.getElem?_cons_succ, ih]

theorem fieldsWidth_take_le {types : List OpType} {k : Nat} {ot : OpType}
    (h : types[k]? = some ot) :
    fieldsWidth (types.take k) + ot.byteSize ≤ fieldsWidth types := by
  induction types generalizing k with
  | nil => cases h
  | cons x rest ih =>
    cases k with
    | zero =>
      cases h
      simp [fieldsWidth]
    | succ k =>
      have := ih h
      simp only [fieldsWidth, List.take_succ_cons, List.map_cons, List.sum_cons] at this ⊢
      omega

/-- The scanner and the decoder read the same value. -/
theorem readOperand_eq {types : List OpType} {e : UInt8 × UInt8} {k pos : Nat}
    (hfield : NamesField types e k) (hend : pos + 1 + fieldsWidth types ≤ code.length) :
    readOperand code (pos + e.1.toNat) e.2.toNat =
      (fieldsAt code types (pos + 1))[k]?.bind Operand.id? := by
  obtain ⟨ot, hot, hunsigned, hoffset, hsize⟩ := hfield
  have hwidth := fieldsWidth_take_le hot
  rw [getElem?_fieldsAt, hot, readOperand, hoffset, hsize, ← Nat.add_assoc,
    get?_of_le (Nat.le_add_right _ _) (by omega)]
  cases ot <;> first | rfl | cases hunsigned

theorem operandRef_eq_some {e : UInt8 × UInt8} {types : List OpType} {opcode : UInt8}
    {k pos id : Nat} (hentry : entry opcode = some e) (hfield : NamesField types e k)
    (hend : pos + 1 + fieldsWidth types ≤ code.length) :
    operandRef entry code bound pos opcode = some id ↔
      id < bound ∧ (fieldsAt code types (pos + 1))[k]?.bind Operand.id? = some id := by
  simp only [operandRef, hentry, readOperand_eq hfield hend]
  cases (fieldsAt code types (pos + 1))[k]?.bind Operand.id? with
  | none => simp
  | some v =>
    simp only [Option.ite_none_right_eq_some, Option.some.injEq]
    constructor
    · rintro ⟨hlt, rfl⟩
      exact ⟨hlt, rfl⟩
    · rintro ⟨hlt, rfl⟩
      exact ⟨hlt, rfl⟩

/-- The scanner visits the decoded instructions. -/
theorem mem_refs_iff {start stop fuel id : Nat} {insts : List DecodedInst}
    (htiles : Tiles t code start stop insts) (hstop : stop = code.length)
    (hlen : code.length ≤ 2 ^ 32) (hnamed : FieldsNamed t entry)
    (hfuel : code.length ≤ start + fuel) :
    (id ∈ (instStarts t.sizes code fuel start).filterMap fun i =>
        operandRef entry code bound i.1 i.2) ↔
      id < bound ∧ RefersTo t code insts entry id := by
  induction htiles generalizing fuel with
  | @done pos =>
    have hnil : instStarts t.sizes code fuel pos = [] := by
      cases fuel with
      | zero => rfl
      | succ fuel => simp [instStarts, hstop]
    simp [hnil, RefersTo]
  | @inst pos stop opcode size rest hopcode hsize hfields hend hrest ih =>
    obtain ⟨hpos, -⟩ := List.getElem?_eq_some_iff.mp hopcode
    obtain ⟨fuel, rfl⟩ : ∃ n, fuel = n + 1 := ⟨fuel - 1, by omega⟩
    have hstart : instStarts t.sizes code (fuel + 1) pos =
        (pos, opcode) :: instStarts t.sizes code fuel (pos + size.toNat) := by
      have hsize0 : ¬ (size = 0 ∨ pos + size.toNat > code.length) := by
        rintro (rfl | h)
        · simp at hfields
        · omega
      simp only [instStarts, hopcode, hsize, if_neg hsize0]
    have hoffset : pos % 2 ^ 32 = pos := Nat.mod_eq_of_lt (by omega)
    have hhead : operandRef entry code bound pos opcode = some id ↔ id < bound ∧
        ∃ e k, entry opcode = some e ∧ NamesField (t.getSchema opcode.toNat).2 e k ∧
          (fieldsAt code (t.getSchema opcode.toNat).2 (pos + 1))[k]?.bind Operand.id? =
            some id := by
      cases hentry : entry opcode with
      | none => simp [operandRef, hentry]
      | some e =>
        obtain ⟨hlt, -⟩ := List.getElem?_eq_some_iff.mp hsize
        obtain ⟨k, hk⟩ := hnamed opcode e hlt hentry
        rw [operandRef_eq_some hentry hk (by omega)]
        constructor
        · rintro ⟨hlt, hid⟩
          exact ⟨hlt, e, k, rfl, hk, hid⟩
        · rintro ⟨hlt, e', k', he', hk', hid⟩
          cases he'
          refine ⟨hlt, ?_⟩
          rw [← readOperand_eq hk (by omega), readOperand_eq hk' (by omega), hid]
    have hrefers : RefersTo t code (⟨pos % 2 ^ 32, size.toNat, t.instName opcode.toNat,
          fieldsAt code (t.getSchema opcode.toNat).2 (pos + 1)⟩ :: rest) entry id ↔
        (∃ e k, entry opcode = some e ∧ NamesField (t.getSchema opcode.toNat).2 e k ∧
          (fieldsAt code (t.getSchema opcode.toNat).2 (pos + 1))[k]?.bind Operand.id? =
            some id) ∨ RefersTo t code rest entry id := by
      simp only [RefersTo, List.mem_cons, or_and_right, exists_or, exists_eq_left, hoffset,
        hopcode, Option.some.injEq, exists_and_left, exists_eq_left']
    have hcons : ∀ l : List (Nat × UInt8),
        id ∈ ((pos, opcode) :: l).filterMap (fun i => operandRef entry code bound i.1 i.2) ↔
          operandRef entry code bound pos opcode = some id ∨
            id ∈ l.filterMap fun i => operandRef entry code bound i.1 i.2 := by
      intro l
      simp [List.mem_filterMap]
    rw [hstart, hcons, ih hstop (by omega), hhead, hrefers, and_or_left]

end Decoded

/-! ## Agreement -/

/-- The body of a recognized function, and the instructions that it decodes to. -/
def DecodesTo (f : HbcFile) (t : OpcodeTables) (data : List UInt8) (fi : Nat)
    (body : List UInt8) (insts : List DecodedInst) : Prop :=
  fi < f.functionCount ∧ f.isFunctionUnrecognized fi = false ∧
    get? data (f.functionGet fi).offset ((f.functionGet fi).offset + (f.functionGet fi).size) =
      some body ∧ decodeFunction t body = .ok insts

/-- What a scan has to be. -/
structure ScanAgrees (f : HbcFile) (t : OpcodeTables) (ops : ScanTables) (data : List UInt8)
    (r : ScanResult) : Prop where
  strings : ∀ fi body insts, DecodesTo f t data fi body insts → ∀ s,
    Listed r.stringRefs s fi ↔
      s < f.stringCount ∧ RefersTo t body insts (opLookup ops.strOps) s
  calls : ∀ fi body insts, DecodesTo f t data fi body insts → ∀ g,
    Listed r.callGraph fi g ↔
      g < f.functionCount ∧ RefersTo t body insts (opLookup ops.callOps) g
  closures : ∀ fi body insts, DecodesTo f t data fi body insts → ∀ g,
    Listed r.closureRefs fi g ↔
      g < f.functionCount ∧ RefersTo t body insts (closureOps t.names) g
  strings_increasing : ∀ s l, r.stringRefs.get? s = some l → l.Pairwise (· < ·)
  calls_nodup : ∀ fi l, r.callGraph.get? fi = some l → l.Nodup
  closures_nodup : ∀ fi l, r.closureRefs.get? fi = some l → l.Nodup

/-- Calls of one function stand next to each other among the direct calls of a function,
and so do the closures of one function. -/
def RefsContiguous (f : HbcFile) (t : OpcodeTables) (ops : ScanTables) (data : List UInt8) :
    Prop :=
  ∀ fi < f.functionCount,
    Runs.Contiguous (refsOf f t data (opLookup ops.callOps) f.functionCount fi) ∧
      Runs.Contiguous (refsOf f t data (closureOps t.names) f.functionCount fi)

section Agreement

variable {f : HbcFile} {t : OpcodeTables} {ops : ScanTables} {data : List UInt8}

theorem functionGet_size_lt (f : HbcFile) (i : Nat) : (f.functionGet i).size < 2 ^ 32 := by
  have hsmall : ∀ layout entry, (readSmallHeader layout entry).byteSize < 2 ^ 32 := by
    intro layout entry
    have h14 := readBitfield_lt entry 32 14
    have h15 := readBitfield_lt entry 32 15
    cases layout <;> simp only [readSmallHeader] <;> omega
  have hlarge := fun off => readU32_le_u32Max f.buf off
  simp only [HbcFile.functionGet]
  split_ifs
  · exact Nat.two_pow_pos 32
  · exact Nat.two_pow_pos 32
  · split
    · exact Nat.two_pow_pos 32
    · exact Nat.lt_of_le_of_lt (hlarge _) (by decide)
  · exact hsmall _ _
  · exact hsmall _ _

theorem mem_refsOf_iff {entry : UInt8 → Option (UInt8 × UInt8)} {bound fi id : Nat}
    {body : List UInt8} {insts : List DecodedInst} (hnamed : FieldsNamed t entry)
    (h : DecodesTo f t data fi body insts) :
    id ∈ refsOf f t data entry bound fi ↔ id < bound ∧ RefersTo t body insts entry id := by
  obtain ⟨hfi, hrecognized, hbody, hdecode⟩ := h
  have htiles := decodeFunction_eq_ok.mp hdecode
  have hsize := functionGet_size_lt f fi
  simp only [get?] at hbody
  split at hbody
  · next hrange =>
    cases hbody
    have hlen := length_slice (b := data) (i := (f.functionGet fi).offset) hrange.2
    simp only [refsOf, scannedBody, hrecognized, Bool.false_eq_true, if_false]
    by_cases hzero : (f.functionGet fi).size = 0
    · rw [if_pos (Or.inl hzero)]
      have hnil : insts = [] := htiles.eq_nil (by omega)
      simp [hnil, RefersTo]
    · rw [if_neg (by omega)]
      exact mem_refs_iff htiles rfl (by omega) hnamed (by omega)
  · cases hbody

/-- The lists of a map of pushed references have no duplicates when equal targets stand
next to each other, and only then. -/
theorem nodup_foldl_pushAt_iff {entry : UInt8 → Option (UInt8 × UInt8)} {bound : Nat} :
    (∀ fi l, ((allRefs f t data entry bound).foldl (fun m e => Runs.pushAt m e.1 e.2)
        OrdMap.empty).get? fi = some l → l.Nodup) ↔
      ∀ fi < f.functionCount, Runs.Contiguous (refsOf f t data entry bound fi) := by
  simp only [Runs.get?_foldl_pushAt, valuesOf_allRefs]
  constructor
  · intro h fi hfi
    have := h fi
    rw [if_pos hfi] at this
    by_cases hnil : refsOf f t data entry bound fi = []
    · rw [hnil, ← Runs.heads_nodup_iff]
      exact List.nodup_nil
    · rw [← Runs.heads_nodup_iff]
      exact this _ (by rw [if_neg hnil])
  · intro h fi l hl
    obtain ⟨-, hl⟩ := Option.ite_none_left_eq_some.mp hl
    cases hl
    split
    · next hfi => exact Runs.heads_nodup_iff.mpr (h fi hfi)
    · exact List.nodup_nil

/-- The scan agrees with the decoder exactly when equal targets stand next to each
other. -/
theorem scanParsed_agrees_iff (hstr : FieldsNamed t (opLookup ops.strOps))
    (hcall : FieldsNamed t (opLookup ops.callOps)) (hclosure : FieldsNamed t (closureOps t.names)) :
    ScanAgrees f t ops data (scanParsed f t ops data) ↔ RefsContiguous f t ops data := by
  have hcalls := @nodup_foldl_pushAt_iff f t data (opLookup ops.callOps) f.functionCount
  have hclosures := @nodup_foldl_pushAt_iff f t data (closureOps t.names) f.functionCount
  rw [← callGraph_eq] at hcalls
  rw [← closureRefs_eq] at hclosures
  constructor
  · intro h fi hfi
    exact ⟨hcalls.mp h.calls_nodup fi hfi, hclosures.mp h.closures_nodup fi hfi⟩
  · intro h
    refine ⟨?_, ?_, ?_, ?_, hcalls.mpr fun fi hfi => (h fi hfi).1,
      hclosures.mpr fun fi hfi => (h fi hfi).2⟩
    · intro fi body insts hdecodes s
      rw [stringRefs_eq, listed_foldl_pushAt, ← mem_refsOf_iff hstr hdecodes]
      simp [mem_allRefs, hdecodes.1]
    · intro fi body insts hdecodes g
      rw [callGraph_eq, listed_foldl_pushAt, ← mem_refsOf_iff hcall hdecodes, mem_allRefs]
      exact and_iff_right hdecodes.1
    · intro fi body insts hdecodes g
      rw [closureRefs_eq, listed_foldl_pushAt, ← mem_refsOf_iff hclosure hdecodes, mem_allRefs]
      exact and_iff_right hdecodes.1
    · intro s l hl
      rw [stringRefs_eq, Runs.get?_foldl_pushAt] at hl
      split at hl
      · cases hl
      · cases hl
        exact Runs.heads_strict valuesOf_swap_allRefs_sorted

end Agreement

/-! ## Version 95 -/

/-- `V95_STR_OPS` and `V95_CALL_OPS`. -/
def v95ScanTables : ScanTables where
  strOps := [
    (52, 1, 4), (53, 1, 4), (54, 4, 1), (55, 4, 2), (56, 4, 4), (57, 4, 2), (58, 4, 4), (59, 4, 2),
    (60, 4, 4), (61, 4, 2), (62, 4, 4), (63, 3, 1), (64, 3, 2), (65, 3, 4), (66, 3, 2), (67, 3, 4),
    (71, 3, 2), (72, 3, 4), (115, 2, 2), (116, 2, 4), (132, 6, 4)]
  callOps := [(82, 3, 2), (88, 3, 4)]

instance (types : List OpType) (e : UInt8 × UInt8) (k : Nat) : Decidable (NamesField types e k) :=
  match h : types[k]? with
  | none => isFalse fun ⟨_, hot, _⟩ => by simp [h] at hot
  | some ot =>
    decidable_of_iff (ot.isUnsigned = true ∧ e.1.toNat = 1 + fieldsWidth (types.take k) ∧
      e.2.toNat = ot.byteSize) (by simp [NamesField, h])

/-- Every entry names a field, opcode by opcode. -/
def fieldsNamed (t : OpcodeTables) (entry : UInt8 → Option (UInt8 × UInt8)) : Bool :=
  (List.range t.sizes.length).all fun opcode =>
    (entry (UInt8.ofNat opcode)).all fun e =>
      (List.range (t.getSchema opcode).2.length).any fun k =>
        NamesField (t.getSchema opcode).2 e k

theorem fieldsNamed_sound {t : OpcodeTables} {entry : UInt8 → Option (UInt8 × UInt8)}
    (h : fieldsNamed t entry = true) : FieldsNamed t entry := by
  intro opcode e hlt he
  have hopcode := List.all_eq_true.mp h opcode.toNat (List.mem_range.mpr hlt)
  rw [UInt8.ofNat_toNat, he, Option.all_some, List.any_eq_true] at hopcode
  obtain ⟨k, -, hk⟩ := hopcode
  exact ⟨k, of_decide_eq_true hk⟩

/-- Two functions; the first calls the function `first`, then 1, then 0. -/
def sampleCallsBuffer (first : UInt8) : List UInt8 :=
  sampleHeader 96 [184, 0, 2]
    ++ [160, 0, 0, 2, 17, 0, 0, 0, 0, 0, 0, 0, 0, 0, 0, 0]
    ++ [180, 0, 0, 2, 2, 0, 0, 0, 0, 0, 0, 0, 0, 0, 0, 0]
    ++ [82, 0, 1, first, 0, 82, 0, 1, 1, 0, 82, 0, 1, 0, 0, 92, 0] ++ [0, 0, 0]
    ++ [92, 0, 0, 0]

instance (f : HbcFile) (t : OpcodeTables) (ops : ScanTables) (data : List UInt8) :
    Decidable (RefsContiguous f t ops data) :=
  inferInstanceAs (Decidable (∀ fi < f.functionCount, _))

theorem v95_fieldsNamed : FieldsNamed v95Tables (opLookup v95ScanTables.strOps) ∧
    FieldsNamed v95Tables (opLookup v95ScanTables.callOps) ∧
    FieldsNamed v95Tables (closureOps v95Tables.names) :=
  ⟨fieldsNamed_sound (by decide +kernel), fieldsNamed_sound (by decide +kernel),
    fieldsNamed_sound (by decide +kernel)⟩

theorem scanParsed_agrees_sample : ∃ f, parse checkedBoundCount (sampleCallsBuffer 1) = .ok f ∧
    ScanAgrees f v95Tables v95ScanTables (sampleCallsBuffer 1)
      (scanParsed f v95Tables v95ScanTables (sampleCallsBuffer 1)) := by
  obtain ⟨f, hparse, hcheck⟩ := Loop.exists_of_okAnd
    (x := parse checkedBoundCount (sampleCallsBuffer 1))
    (p := fun f => RefsContiguous f v95Tables v95ScanTables (sampleCallsBuffer 1))
    (by decide +kernel)
  obtain ⟨hstr, hcall, hclosure⟩ := v95_fieldsNamed
  exact ⟨f, hparse, (scanParsed_agrees_iff hstr hcall hclosure).mpr (of_decide_eq_true hcheck)⟩

/-- Called again after another function, a function is listed twice. -/
theorem scanParsed_repeats_callee :
    (FieldsNamed v95Tables (opLookup v95ScanTables.strOps) ∧
      FieldsNamed v95Tables (opLookup v95ScanTables.callOps) ∧
      FieldsNamed v95Tables (closureOps v95Tables.names)) ∧
    ∃ f, parse checkedBoundCount (sampleCallsBuffer 0) = .ok f ∧
      (scanParsed f v95Tables v95ScanTables (sampleCallsBuffer 0)).callGraph.get? 0 =
        some [0, 1, 0] ∧
      ¬ ScanAgrees f v95Tables v95ScanTables (sampleCallsBuffer 0)
        (scanParsed f v95Tables v95ScanTables (sampleCallsBuffer 0)) := by
  obtain ⟨f, hparse, hcheck⟩ := Loop.exists_of_okAnd
    (x := parse checkedBoundCount (sampleCallsBuffer 0))
    (p := fun f => (scanParsed f v95Tables v95ScanTables (sampleCallsBuffer 0)).callGraph.get? 0 =
      some [0, 1, 0]) (by decide +kernel)
  have hlist := of_decide_eq_true hcheck
  refine ⟨v95_fieldsNamed, f, hparse, hlist, fun h => ?_⟩
  exact absurd (h.calls_nodup 0 _ hlist) (by decide)

end Hermes
