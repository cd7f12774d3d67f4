-- SUMMARY: The reader of literal buffers, the format it reads, and when it reads back what was written.
import DroidsawHermes.Error
import DroidsawHermes.Lib.Loop

/-!
# Literal buffers

`parse_literal_buffer` of `parser/round_trip.rs`. A buffer is a sequence of runs:
a header with a type tag and a count, and then the payloads of that many items.
-/

open Bytes

namespace Hermes

/-! ## The reader -/

/-- A value of a literal buffer; `dval` holds the bits of the float. -/
structure LiteralValue where
  tag : Nat
  strId : Nat
  ival : Int32
  dval : UInt64
  deriving DecidableEq, Repr

def literalTagInvalid : Nat := 255

/-- The value before the arms of the type tag fill it. -/
def LiteralValue.empty : LiteralValue := ⟨0, 0, 0, 0⟩

/-- `read_u32(buf, p) as i32`. -/
def asI32 (n : Nat) : Int32 := Int32.ofBitVec (BitVec.ofNat 32 n)

/-- An item with a payload of `width` bytes, and the position behind it. -/
def readPayload (buf : List UInt8) (typeTag width p : Nat) (val : LiteralValue) :
    Except HermesError (LiteralValue × Nat) :=
  if p + width > buf.length then .error (.truncatedLiteralBuffer typeTag width (buf.length - p))
  else .ok (val, p + width)

/-- The `match type_tag` of one item at position `p`. -/
def readLiteral (buf : List UInt8) (typeTag p : Nat) : Except HermesError (LiteralValue × Nat) :=
  match typeTag with
  | 0x00 => .ok ({ LiteralValue.empty with tag := 0 }, p)
  | 0x10 => .ok ({ LiteralValue.empty with tag := 1 }, p)
  | 0x20 => .ok ({ LiteralValue.empty with tag := 2 }, p)
  | 0x30 => readPayload buf 0x30 8 p { LiteralValue.empty with tag := 3, dval := readF64 buf p }
  | 0x40 => readPayload buf 0x40 4 p { LiteralValue.empty with tag := 4, strId := readU32 buf p }
  | 0x50 => readPayload buf 0x50 2 p { LiteralValue.empty with tag := 4, strId := readU16 buf p }
  | 0x60 => .ok ({ LiteralValue.empty with tag := 5 }, p)
  | 0x70 =>
    readPayload buf 0x70 4 p { LiteralValue.empty with tag := 6, ival := asI32 (readU32 buf p) }
  | _ => .ok ({ LiteralValue.empty with tag := literalTagInvalid }, p)

/-- `for _ in 0..items_to_read`: the position behind the items, and the values. -/
def readItems (buf : List UInt8) (typeTag : Nat) :
    Nat → Nat → List LiteralValue → Except HermesError (Nat × List LiteralValue)
  | 0, p, out => .ok (p, out)
  | items + 1, p, out =>
    if p ≥ buf.length then .ok (p, out)
    else do
      let (val, next) ← readLiteral buf typeTag p
      readItems buf typeTag items next (out ++ [val])

/-- The header of a run: the type tag, the count and the position behind it.
`none` when the second byte of a long header is missing. -/
def readRunHeader (buf : List UInt8) (p : Nat) : Option (Nat × Nat × Nat) :=
  let tagByte := (buf.getD p 0).toNat
  if tagByte &&& 0x80 ≠ 0 then
    if p + 1 ≥ buf.length then none
    else some (tagByte &&& 0x70, ((tagByte &&& 0x0F) <<< 8) ||| (buf.getD (p + 1) 0).toNat, p + 2)
  else some (tagByte &&& 0x70, tagByte &&& 0x0F, p + 1)

/-- The outer loop. Every round reads at least one byte, so a fuel of the length of
the buffer never runs out. -/
def readRuns (buf : List UInt8) :
    Nat → Nat → Nat → List LiteralValue → Except HermesError (List LiteralValue)
  | 0, _, _, out => .ok out
  | fuel + 1, p, remaining, out =>
    if remaining > 0 ∧ p < buf.length then
      match readRunHeader buf p with
      | none => .ok out
      | some (typeTag, seqLen, start) =>
        let itemsToRead := min remaining seqLen
        readItems buf typeTag itemsToRead start out >>= fun (next, out) =>
          readRuns buf fuel next (remaining - itemsToRead) out
    else .ok out

def parseLiteralBuffer (buf : List UInt8) (offset numItems : Nat) :
    Except HermesError (List LiteralValue) :=
  if offset ≥ buf.length then .ok []
  else readRuns buf buf.length offset numItems []

/-! ## The format -/

/-- A literal; a number is given by the bits of its float. -/
inductive Literal where
  | null
  | true
  | false
  | undefined
  | number (bits : UInt64)
  | string (id : UInt32)
  | integer (v : Int32)
  deriving DecidableEq, Repr

/-- The value that stands for a literal. -/
def Literal.value : Literal → LiteralValue
  | .null => { LiteralValue.empty with tag := 0 }
  | .true => { LiteralValue.empty with tag := 1 }
  | .false => { LiteralValue.empty with tag := 2 }
  | .number bits => { LiteralValue.empty with tag := 3, dval := bits }
  | .string id => { LiteralValue.empty with tag := 4, strId := id.toNat }
  | .undefined => { LiteralValue.empty with tag := 5 }
  | .integer v => { LiteralValue.empty with tag := 6, ival := v }

inductive LiteralTag where
  | null | true | false | number | longString | shortString | undefined | integer
  deriving DecidableEq, Repr

namespace LiteralTag

def code : LiteralTag → Nat
  | null => 0x00
  | true => 0x10
  | false => 0x20
  | number => 0x30
  | longString => 0x40
  | shortString => 0x50
  | undefined => 0x60
  | integer => 0x70

/-- The bytes of an item's payload. -/
def width : LiteralTag → Nat
  | number => 8
  | longString | integer => 4
  | shortString => 2
  | null | true | false | undefined => 0

/-- The tag can stand for the literal. -/
def Fits : LiteralTag → Literal → Prop
  | null, .null | true, .true | false, .false | undefined, .undefined => True
  | number, .number _ | longString, .string _ | integer, .integer _ => True
  | shortString, .string id => id.toNat < 0x10000
  | _, _ => False

end LiteralTag

/-- The payload of a literal as a number. -/
def Literal.word : Literal → Nat
  | .number bits => bits.toNat
  | .string id => id.toNat
  | .integer v => v.toBitVec.toNat
  | _ => 0

/-- A run with a header of one or of two bytes. -/
structure Run where
  long : Bool
  tag : LiteralTag
  items : List Literal
  length_le : items.length ≤ if long then 4095 else 15
  fits : ∀ x ∈ items, tag.Fits x

namespace Run

def header (r : Run) : List UInt8 :=
  if r.long then
    [UInt8.ofNat (0x80 + r.tag.code + r.items.length / 256), UInt8.ofNat (r.items.length % 256)]
  else [UInt8.ofNat (r.tag.code + r.items.length)]

def payload (r : Run) : List UInt8 := r.items.flatMap fun x => leBytes r.tag.width x.word

def bytes (r : Run) : List UInt8 := r.header ++ r.payload

end Run

/-- A buffer of runs. -/
def encodeRuns (runs : List Run) : List UInt8 := runs.flatMap Run.bytes

/-- The list that is cut into the runs. -/
def literals (runs : List Run) : List Literal := runs.flatMap Run.items

/-! ## Reading one run -/

theorem readPayload_append {pre mid suf : List UInt8} {typeTag width : Nat} {val : LiteralValue}
    (h : mid.length = width) :
    readPayload (pre ++ mid ++ suf) typeTag width pre.length val =
      .ok (val, pre.length + width) := by
  rw [readPayload, if_neg]
  simp only [List.length_append]
  omega

/-- An item reads back as it was written. -/
theorem readLiteral_append {tag : LiteralTag} {x : Literal} (h : tag.Fits x) (pre suf : List UInt8) :
    readLiteral (pre ++ leBytes tag.width x.word ++ suf) tag.code pre.length =
      .ok (x.value, pre.length + tag.width) := by
  have hlen : (leBytes tag.width x.word).length = tag.width := length_leBytes _ _
  cases tag with
  | null | true | false | undefined =>
    cases x <;> first | rfl | exact h.elim
  | number =>
    cases x with
    | number bits =>
      have hlt : bits.toNat < 256 ^ 8 := bits.toNat_lt
      have hread : readF64 (pre ++ leBytes 8 bits.toNat ++ suf) pre.length = bits := by
        rw [readF64, readLE_append, Nat.mod_eq_of_lt hlt, UInt64.ofNat_toNat]
      simp only [LiteralTag.code, LiteralTag.width, Literal.word, readLiteral] at hlen ⊢
      rw [hread, readPayload_append hlen, Literal.value]
    | _ => exact h.elim
  | longString =>
    cases x with
    | string id =>
      have hlt : id.toNat < 256 ^ 4 := id.toNat_lt
      have hread : readU32 (pre ++ leBytes 4 id.toNat ++ suf) pre.length = id.toNat := by
        rw [readU32_eq_readLE, readLE_append, Nat.mod_eq_of_lt hlt]
      simp only [LiteralTag.code, LiteralTag.width, Literal.word, readLiteral] at hlen ⊢
      rw [hread, readPayload_append hlen, Literal.value]
    | _ => exact h.elim
  | shortString =>
    cases x with
    | string id =>
      have hlt : id.toNat < 256 ^ 2 := h
      have hread : readU16 (pre ++ leBytes 2 id.toNat ++ suf) pre.length = id.toNat := by
        rw [readU16, readLE_append, Nat.mod_eq_of_lt hlt]
      simp only [LiteralTag.code, LiteralTag.width, Literal.word, readLiteral] at hlen ⊢
      rw [hread, readPayload_append hlen, Literal.value]
    | _ => exact h.elim
  | integer =>
    cases x with
    | integer v =>
      have hlt : v.toBitVec.toNat < 256 ^ 4 := v.toBitVec.isLt
      have hread : asI32 (readU32 (pre ++ leBytes 4 v.toBitVec.toNat ++ suf) pre.length) = v := by
        rw [readU32_eq_readLE, readLE_append, Nat.mod_eq_of_lt hlt, asI32, BitVec.ofNat_toNat,
          BitVec.setWidth_eq, Int32.ofBitVec_toBitVec]
      simp only [LiteralTag.code, LiteralTag.width, Literal.word, readLiteral] at hlen ⊢
      rw [hread, readPayload_append hlen, Literal.value]
    | _ => exact h.elim

/-- The items of a run, when they take bytes or something follows them. -/
theorem readItems_append {tag : LiteralTag} {suf : List UInt8} (hmore : tag.width ≠ 0 ∨ suf ≠ []) :
    ∀ (items : List Literal) (pre : List UInt8) (out : List LiteralValue),
      (∀ x ∈ items, tag.Fits x) →
      readItems (pre ++ items.flatMap (fun x => leBytes tag.width x.word) ++ suf) tag.code
          items.length pre.length out =
        .ok (pre.length + (items.flatMap fun x => leBytes tag.width x.word).length,
          out ++ items.map Literal.value) := by
  intro items
  induction items with
  | nil =>
    intro pre out _
    simp [readItems]
  | cons x items ih =>
    intro pre out hfits
    have hsome : 0 < (leBytes tag.width x.word ++ suf).length := by
      rw [List.length_append, length_leBytes]
      rcases hmore with hwidth | hsuf
      · omega
      · have := List.length_pos_iff.mpr hsuf
        omega
    have hread := readLiteral_append (hfits x List.mem_cons_self) pre
      (items.flatMap (fun x => leBytes tag.width x.word) ++ suf)
    have hrest := ih (pre ++ leBytes tag.width x.word) (out ++ [x.value])
      fun y hy => hfits y (List.mem_cons_of_mem x hy)
    simp only [List.flatMap_cons, List.length_cons, readItems, List.append_assoc, List.map_cons,
      List.length_append, length_leBytes, List.singleton_append] at hread hrest hsome ⊢
    rw [if_neg (by omega), hread, Loop.ok_bind, hrest, Nat.add_assoc]

/-- The three fields of a tag byte. -/
theorem LiteralTag.code_bits (tag : LiteralTag) {n : Nat} (hn : n ≤ 15) :
    (UInt8.ofNat (tag.code + n)).toNat &&& 0x80 = 0 ∧
      (UInt8.ofNat (tag.code + n)).toNat &&& 0x70 = tag.code ∧
      (UInt8.ofNat (tag.code + n)).toNat &&& 0x0F = n ∧
      (UInt8.ofNat (0x80 + tag.code + n)).toNat &&& 0x80 ≠ 0 ∧
      (UInt8.ofNat (0x80 + tag.code + n)).toNat &&& 0x70 = tag.code ∧
      (UInt8.ofNat (0x80 + tag.code + n)).toNat &&& 0x0F = n := by
  have hall : ∀ k : Fin 16, (UInt8.ofNat (tag.code + k)).toNat &&& 0x80 = 0 ∧
      (UInt8.ofNat (tag.code + k)).toNat &&& 0x70 = tag.code ∧
      (UInt8.ofNat (tag.code + k)).toNat &&& 0x0F = k ∧
      (UInt8.ofNat (0x80 + tag.code + k)).toNat &&& 0x80 ≠ 0 ∧
      (UInt8.ofNat (0x80 + tag.code + k)).toNat &&& 0x70 = tag.code ∧
      (UInt8.ofNat (0x80 + tag.code + k)).toNat &&& 0x0F = k := by
    cases tag <;> decide
  exact hall ⟨n, by omega⟩

theorem getD_append_cons (pre suf : List UInt8) (b : UInt8) :
    (pre ++ b :: suf).getD pre.length 0 = b := by
  simp [List.getD_eq_getElem?_getD]

/-- Behind the buffer nothing is read. -/
theorem readItems_end {buf : List UInt8} {typeTag p : Nat} :
    ∀ (n : Nat) (out : List LiteralValue), buf.length ≤ p →
      readItems buf typeTag n p out = .ok (p, out) := by
  intro n out h
  cases n with
  | zero => rfl
  | succ n => rw [readItems, if_pos h]

/-- The header of a run reads back as it was written. -/
theorem readRunHeader_append (r : Run) (pre suf : List UInt8) :
    readRunHeader (pre ++ r.bytes ++ suf) pre.length =
      some (r.tag.code, r.items.length, pre.length + r.header.length) := by
  have hlen := r.length_le
  cases hlong : r.long with
  | false =>
    rw [hlong] at hlen
    obtain ⟨hshort, htag, hcount, -⟩ := r.tag.code_bits hlen
    have hheader : r.header = [UInt8.ofNat (r.tag.code + r.items.length)] := by
      simp [Run.header, hlong]
    simp only [Run.bytes, hheader, List.append_assoc, List.cons_append, List.nil_append,
      readRunHeader, getD_append_cons]
    rw [if_neg (not_not.mpr hshort), htag, hcount]
    rfl
  | true =>
    rw [hlong] at hlen
    have hhigh : r.items.length / 256 ≤ 15 := by
      simp only [if_true] at hlen
      omega
    obtain ⟨-, -, -, hlong', htag, hcount⟩ := r.tag.code_bits hhigh
    have hheader : r.header = [UInt8.ofNat (0x80 + r.tag.code + r.items.length / 256),
        UInt8.ofNat (r.items.length % 256)] := by
      simp [Run.header, hlong]
    have hsecond := getD_append_cons
      (pre ++ [UInt8.ofNat (0x80 + r.tag.code + r.items.length / 256)]) (r.payload ++ suf)
      (UInt8.ofNat (r.items.length % 256))
    have hlow : (UInt8.ofNat (r.items.length % 256)).toNat = r.items.length % 256 := by
      rw [UInt8.toNat_ofNat', Nat.mod_mod]
    have hjoin : (r.items.length / 256) <<< 8 ||| r.items.length % 256 = r.items.length := by
      rw [← Nat.shiftLeft_add_eq_or_of_lt (Nat.mod_lt _ (by decide)), Nat.shiftLeft_eq]
      omega
    simp only [Run.bytes, hheader, List.append_assoc, List.cons_append, List.nil_append,
      readRunHeader, getD_append_cons, List.length_append, List.length_cons, List.length_nil]
      at hsecond ⊢
    rw [if_pos hlong', if_neg (by omega), htag, hcount, hsecond, hlow, hjoin]

/-! ## Reading a buffer -/

/-- The values that are read: those of a last run without payloads get lost. -/
def delivered : List Run → List LiteralValue
  | [] => []
  | r :: rs =>
    (if r.tag.width = 0 ∧ rs = [] then [] else r.items.map Literal.value) ++ delivered rs

theorem Run.header_length_pos (r : Run) : 0 < r.header.length := by
  rw [Run.header]
  split <;> simp

theorem encodeRuns_ne_nil {runs : List Run} (h : runs ≠ []) : encodeRuns runs ≠ [] := by
  obtain ⟨r, rs, rfl⟩ := List.exists_cons_of_ne_nil h
  have := r.header_length_pos
  rw [← List.length_pos_iff]
  simp only [encodeRuns, List.flatMap_cons, Run.bytes, List.length_append]
  omega

theorem delivered_eq_nil {runs : List Run} (h : literals runs = []) : delivered runs = [] := by
  induction runs with
  | nil => rfl
  | cons r rs ih =>
    rw [literals, List.flatMap_cons, List.append_eq_nil_iff] at h
    rw [delivered, h.1, ih h.2]
    simp

/-- The loop, on what remains of the buffer and of the list. -/
theorem readRuns_append :
    ∀ (runs : List Run) (pre : List UInt8) (fuel : Nat) (out : List LiteralValue),
      (encodeRuns runs).length ≤ fuel →
      readRuns (pre ++ encodeRuns runs) fuel pre.length (literals runs).length out =
        .ok (out ++ delivered runs) := by
  intro runs
  induction runs with
  | nil =>
    intro pre fuel out _
    cases fuel <;> simp [readRuns, literals, delivered]
  | cons r rs ih =>
    intro pre fuel out hfuel
    have hheader := r.header_length_pos
    have hbytes : encodeRuns (r :: rs) = r.bytes ++ encodeRuns rs := List.flatMap_cons
    have hcount : (literals (r :: rs)).length = r.items.length + (literals rs).length := by
      rw [literals, List.flatMap_cons, List.length_append]
      rfl
    have hsplit : r.bytes = r.header ++ r.payload := rfl
    rw [hbytes, List.length_append, hsplit, List.length_append] at hfuel
    cases fuel with
    | zero => omega
    | succ fuel =>
      rw [readRuns]
      by_cases hzero : literals (r :: rs) = []
      · rw [if_neg (by simp [hzero]), delivered_eq_nil hzero, List.append_nil]
      · have hpos := List.length_pos_iff.mpr hzero
        rw [if_pos ⟨hpos, by rw [hbytes, hsplit]; simp only [List.length_append]; omega⟩, hbytes,
          ← List.append_assoc, readRunHeader_append]
        have hmin : min (literals (r :: rs)).length r.items.length = r.items.length := by omega
        have hrest : (literals (r :: rs)).length - r.items.length = (literals rs).length := by omega
        simp only [hmin, hrest]
        by_cases hlast : r.tag.width = 0 ∧ rs = []
        · -- The buffer ends right behind the header.
          obtain ⟨hwidth, rfl⟩ := hlast
          have hpayload : r.payload = [] := by
            simp [Run.payload, hwidth, leBytes]
          have hend : (pre ++ (r.bytes ++ encodeRuns [])).length = pre.length + r.header.length := by
            simp [encodeRuns, hsplit, hpayload]
          rw [List.append_assoc, readItems_end _ _ (Nat.le_of_eq hend), Loop.ok_bind]
          simp only [delivered, hwidth, and_self, if_true, List.append_nil]
          cases fuel with
          | zero => rfl
          | succ fuel => rw [readRuns, if_neg (by simp [literals])]
        · have hmore : r.tag.width ≠ 0 ∨ encodeRuns rs ≠ [] := by
            rcases not_and_or.mp hlast with hwidth | hrs
            · exact Or.inl hwidth
            · exact Or.inr (encodeRuns_ne_nil hrs)
          have hitems := readItems_append hmore r.items (pre ++ r.header) out r.fits
          have hloop := ih (pre ++ r.bytes) fuel (out ++ r.items.map Literal.value) (by omega)
          have hnext : (pre ++ r.header).length + (r.items.flatMap
              fun x => leBytes r.tag.width x.word).length = (pre ++ r.bytes).length := by
            simp only [hsplit, Run.payload, List.length_append]
            omega
          rw [hnext] at hitems
          rw [← List.length_append, hsplit, ← List.append_assoc pre]
          simp only [Run.payload]
          rw [hitems, Loop.ok_bind]
          rw [List.append_assoc pre, ← Run.payload, ← hsplit, hloop, delivered, if_neg hlast,
            List.append_assoc]

/-- A buffer of runs is read, and what is read is what `delivered` says. -/
theorem parseLiteralBuffer_encodeRuns (runs : List Run) :
    parseLiteralBuffer (encodeRuns runs) 0 (literals runs).length = .ok (delivered runs) := by
  rw [parseLiteralBuffer]
  split
  · next hempty =>
    have hnil : runs = [] := by
      by_contra hne
      exact encodeRuns_ne_nil hne (List.eq_nil_of_length_eq_zero (by omega))
    rw [hnil]
    rfl
  · exact readRuns_append runs [] (encodeRuns runs).length [] (Nat.le_refl _)

/-! ## The round trip -/

/-- The last run has payloads, or no items. -/
def EndsWithPayload (runs : List Run) : Prop :=
  ∀ r ∈ runs.getLast?, r.tag.width ≠ 0 ∨ r.items = []

theorem delivered_eq_iff (runs : List Run) :
    delivered runs = (literals runs).map Literal.value ↔ EndsWithPayload runs := by
  induction runs with
  | nil => simp [delivered, literals, EndsWithPayload]
  | cons r rs ih =>
    have hliterals : (literals (r :: rs)).map Literal.value =
        r.items.map Literal.value ++ (literals rs).map Literal.value := by
      rw [literals, List.flatMap_cons, List.map_append]
      rfl
    rw [delivered, hliterals]
    cases rs with
    | nil =>
      by_cases hwidth : r.tag.width = 0
      · simp [EndsWithPayload, hwidth, delivered, literals]
      · simp [EndsWithPayload, hwidth, delivered, literals]
    | cons r' rs =>
      rw [if_neg (fun h => List.cons_ne_nil _ _ h.2), List.append_cancel_left_eq, ih]
      simp [EndsWithPayload]

/-- A written buffer reads back as its list exactly when it does not end with items
that have no payload. -/
theorem parseLiteralBuffer_round_trip (runs : List Run) :
    parseLiteralBuffer (encodeRuns runs) 0 (literals runs).length =
        .ok ((literals runs).map Literal.value) ↔
      EndsWithPayload runs := by
  rw [parseLiteralBuffer_encodeRuns, Except.ok.injEq, delivered_eq_iff]

/-- The list `[null]` as one run. -/
def singleNull : Run := ⟨false, .null, [.null], by decide, by simp [LiteralTag.Fits]⟩

theorem parseLiteralBuffer_loses_null : ¬ ∀ runs : List Run,
    parseLiteralBuffer (encodeRuns runs) 0 (literals runs).length =
      .ok ((literals runs).map Literal.value) := by
  intro h
  exact absurd (h [singleNull]) (by decide)

end Hermes
