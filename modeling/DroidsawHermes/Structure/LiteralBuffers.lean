-- SUMMARY: The texts that literal buffers are printed to, and the code that cuts them into items again.
import DroidsawHermes.Lib.Separated
import DroidsawHermes.Decompile.Environments
import DroidsawHermes.Structure.BuildExpr
import DroidsawHermes.Structure.StringText

/-!
# Literal buffers

`resolve_buffers` prints the literals of a buffer to one text, and the spread folds cut
that text again. What can stand at the ends of an item and where an item can have a
separator in it is read off from the printers.
-/

namespace Hermes.Structure

open Decompile Separated

/-! ## Numbers -/

/-- What the standard library prints for a finite number. -/
structure NumberText (s : String) : Prop where
  nonempty : s ≠ ""
  chars : ∀ c ∈ s.toList, c.isDigit ∨ c = '-' ∨ c = '.' ∨ c = 'e'

structure IsFinite (v : UInt64) : Prop where
  number : isNaN v = false
  belowInfinity : v ≠ 0x7FF0000000000000
  aboveInfinity : v ≠ 0xFFF0000000000000

/-- `{v}` and `{v:e}` of an `f64`. -/
structure DoubleFormat where
  display : UInt64 → String
  lowerExp : UInt64 → String
  display_text : ∀ v, IsFinite v → NumberText (display v)
  lowerExp_text : ∀ v, IsFinite v → NumberText (lowerExp v)

/-- The bits of `1e-6` and of `1e20`. -/
def plainBounds : UInt64 × UInt64 := (0x3EB0C6F7A0B5ED8D, 0x4415AF1D78B58C40)

def fmtJsDouble (format : DoubleFormat) (v : UInt64) : String :=
  let abs := v &&& 0x7FFFFFFFFFFFFFFF
  if isNaN v then "NaN"
  else if v = 0x7FF0000000000000 then "Infinity"
  else if v = 0xFFF0000000000000 then "-Infinity"
  else if abs = 0 then "0"
  else if plainBounds.1 ≤ abs ∧ abs < plainBounds.2 then format.display v
  else format.lowerExp v

/-! ## Buffers -/

/-- What `get_literal` returns. -/
structure BufferLiteral where
  tag : Nat
  strId : Nat
  ival : Int
  dval : UInt64
  deriving DecidableEq, Repr

/-- The tables of the file: `get_str`, `get_literal` and `get_shape`. -/
structure BufferTables where
  getStr : Nat → String
  getLiteral : Nat → Nat → Nat → Nat → BufferLiteral
  getShape : Nat → Nat × Nat
  format : DoubleFormat

section

variable (t : BufferTables)

def BufferTables.valueText (l : BufferLiteral) : String :=
  bufferItem t.getStr (fmtJsDouble t.format) l.tag l.strId l.ival l.dval

def BufferTables.keyText (i : Nat) (key : BufferLiteral) : String :=
  bufferKey t.getStr i key.tag key.strId

/-- The key of a slot as the name of a property, and whether it is an identifier. -/
def BufferTables.rawKey (i : Nat) (key : BufferLiteral) : String × Bool :=
  let k := t.getStr key.strId
  if key.tag = 4 ∧ k ≠ "" ∧ ¬ startsWith k "<" ∧ ¬ isValidJsIdent k then (k, false)
  else (t.keyText i key, true)

/-- The text of an array. -/
def BufferTables.arrayText (items : List BufferLiteral) : String :=
  arrayContent (items.map t.valueText)

/-- The keys and values of an object, the key of a slot first. -/
def BufferTables.entryTexts (props : List (BufferLiteral × BufferLiteral)) :
    List (String × String) :=
  props.zipIdx.map fun p => (t.keyText p.2 p.1.1, t.valueText p.1.2)

/-- The text of an object. -/
def BufferTables.objectText (props : List (BufferLiteral × BufferLiteral)) : String :=
  objectContent (t.entryTexts props)

/-- Entry `i` of `n` in the buffer of a kind: `0` for values, `1` for keys, `2` for the
values of an object before version 97. -/
def BufferTables.literals (kind offset n : Nat) : List BufferLiteral :=
  (List.range n).map (t.getLiteral kind offset n)

def BufferTables.props (valueKind keyOffset valueOffset n : Nat) :
    List (BufferLiteral × BufferLiteral) :=
  (t.literals 1 keyOffset n).zip (t.literals valueKind valueOffset n)

end

/-! ## `resolve_buffers` -/

def unresolvedBufferPlaceholder : String := "/* unresolved buffer operand */"

def maxObjectShapeNumProps : Nat := 65536

def withContent (op : SsaOp) (content : String) : SsaOp :=
  { op with operands := [op.operands.head?.getD .dstPlaceholder, .resolvedString content] }

/-- `install_unresolved_buffer_placeholder`. -/
def installUnresolved (op : SsaOp) (isArray : Bool) : SsaOp :=
  withContent op (if isArray then "[" ++ unresolvedBufferPlaceholder ++ "]"
    else "\x7b " ++ unresolvedBufferPlaceholder ++ " \x7d")

def constAt (op : SsaOp) (i : Nat) : Option Nat :=
  match op.operands[i]? with
  | some (.const n) => some (asU32 n)
  | _ => none

section

variable (t : BufferTables)

/-- `NewArrayWithBuffer`. -/
def resolveArray (op : SsaOp) : SsaOp :=
  match constAt op 2, constAt op 3 with
  | some n, some offset => withContent op (t.arrayText (t.literals 0 offset n))
  | _, _ => installUnresolved op true

/-- The keys and values of a shape, as the later passes look them up. -/
structure SlotTable where
  keys : List (String × Bool)
  values : List String

/-- `NewObjectWithBuffer` of version 97 and later, with the slots it records. -/
def resolveShape (op : SsaOp) : SsaOp × Option SlotTable :=
  match constAt op 1, constAt op 2 with
  | some shape, some valueOffset =>
    let (keyOffset, n) := t.getShape shape
    if n = 0 then (op, none)
    else if maxObjectShapeNumProps < n then (installUnresolved op false, none)
    else
      let props := t.props 0 keyOffset valueOffset n
      (withContent op (t.objectText props),
        some ⟨props.zipIdx.map fun p => t.rawKey p.2 p.1.1, props.map fun p => t.valueText p.2⟩)
  | _, _ => (installUnresolved op false, none)

/-- `NewObjectWithBuffer` before version 97. -/
def resolveProps (op : SsaOp) : SsaOp :=
  match constAt op 1, constAt op 4, constAt op 3 with
  | some n, some valueOffset, some keyOffset =>
    if maxObjectShapeNumProps < n then installUnresolved op false
    else if n = 0 then op
    else withContent op (t.objectText (t.props 2 keyOffset valueOffset n))
  | _, _, _ => installUnresolved op false

def resolveBuffer (op : SsaOp) : SsaOp × Option SlotTable :=
  if op.name = "NewArrayWithBuffer" ∨ op.name = "NewArrayWithBufferLong" then
    (resolveArray t op, none)
  else if op.name = "NewObjectWithBuffer" ∨ op.name = "NewObjectWithBufferLong" then
    if 5 ≤ op.operands.length then (resolveProps t op, none)
    else if 3 ≤ op.operands.length then resolveShape t op
    else (op, none)
  else (op, none)

end

inductive ObjectSpreadEntry where
  | keyVal (key : String) (value : SsaOperand)
  | spread (value : SsaOperand)
  deriving DecidableEq, Repr

def pushObjectSpreadEntry : ObjectSpreadEntry → List SsaOperand
  | .keyVal key value => [.resolvedString ("K:" ++ key), value]
  | .spread value => [.resolvedString "S", value]

/-- The text between the braces of an object literal. -/
def insideBraces (s : List Char) : Option (List Char) :=
  match trim s with
  | '{' :: inner => if inner.getLast? = some '}' then some (trim inner.dropLast) else none
  | _ => none

/-- One `key: value`. -/
def prefixEntry (pair : String) : Option ObjectSpreadEntry :=
  (cutOnce ": ".toList pair.toList).map fun parts =>
    .keyVal (String.ofList (trim parts.1)) (.resolvedString (String.ofList (trim parts.2)))

def objectBufferNames : List String :=
  ["NewObjectWithBuffer", "NewObjectWithBufferLong", "NewObjectWithBufferAndParent"]

def prefixEntries : List String → Option (List ObjectSpreadEntry)
  | [] => some []
  | pair :: pairs =>
    (prefixEntry pair).bind fun entry => (prefixEntries pairs).map (entry :: ·)

def objectBufferPrefixEntries (op : SsaOp) : Option (List ObjectSpreadEntry) :=
  if op.name ∈ objectBufferNames then
    match op.operands[1]? with
    | some (SsaOperand.resolvedString literal) =>
      (insideBraces literal.toList).bind fun inner =>
        if inner = [] then some [] else prefixEntries ((String.ofList inner).splitOn ", ")
    | _ => none
  else none

def escapeEntryKeyChar : Char → List Char
  | '\\' => ['\\', '\\']
  | '"' => ['\\', '"']
  | '\n' => ['\\', 'n']
  | c => [c]

/-- The key in `Display` of an `ObjectEntry`. -/
def entryKeyText (key : String) : String :=
  if isValidJsIdent key then key
  else "\"" ++ String.ofList (key.toList.flatMap escapeEntryKeyChar) ++ "\""

/-- The keys an object literal is printed with. -/
def printedKeys : Expr → List String
  | .objectLit entries => entries.filterMap fun
    | .keyVal key _ => some (entryKeyText key)
    | .spread _ => none
  | _ => []

/-! ## Texts with no blank at an end -/

structure Tight (s : List Char) : Prop where
  head : ∃ c, s.head? = some c ∧ isWhitespace c = false
  last : ∃ c, s.getLast? = some c ∧ isWhitespace c = false

theorem Tight.ne_nil {s : List Char} (h : Tight s) : s ≠ [] := by
  rintro rfl
  obtain ⟨c, hc, -⟩ := h.head
  cases hc

theorem dropWhile_of_head? {s : List Char} {c : Char} (h : s.head? = some c)
    (hc : isWhitespace c = false) : s.dropWhile isWhitespace = s := by
  obtain ⟨rest, rfl⟩ := List.head?_eq_some_iff.mp h
  exact List.dropWhile_cons_of_neg (by simp [hc])

theorem trim_of_tight {s : List Char} (h : Tight s) : trim s = s := by
  obtain ⟨c, hhead, hc⟩ := h.head
  obtain ⟨d, hlast, hd⟩ := h.last
  rw [List.getLast?_eq_head?_reverse] at hlast
  rw [trim, dropWhile_of_head? hhead hc, dropWhile_of_head? hlast hd, List.reverse_reverse]

theorem trim_padded {s : List Char} (h : Tight s) : trim (' ' :: (s ++ [' '])) = s := by
  obtain ⟨c, hhead, hc⟩ := h.head
  have hblank : isWhitespace ' ' = true := by decide
  have hpad : (s ++ [' ']).head? = some c := by
    rw [List.head?_append, hhead]
    rfl
  rw [trim, List.dropWhile_cons_of_pos hblank, dropWhile_of_head? hpad hc, List.reverse_append,
    List.reverse_singleton, List.singleton_append, List.dropWhile_cons_of_pos hblank]
  have htrim := trim_of_tight h
  rwa [trim, dropWhile_of_head? hhead hc] at htrim

theorem Tight.append {a b : List Char} (ha : Tight a) (hb : Tight b) (m : List Char) :
    Tight (a ++ m ++ b) := by
  obtain ⟨c, hhead, hc⟩ := ha.head
  obtain ⟨d, hlast, hd⟩ := hb.last
  refine ⟨⟨c, ?_, hc⟩, d, ?_, hd⟩
  · rw [List.append_assoc, List.head?_append, hhead]
    rfl
  · rw [List.getLast?_append, hlast]
    rfl

theorem tight_intercalate (sep : List Char) {items : List (List Char)} (hne : items ≠ [])
    (h : ∀ item ∈ items, Tight item) : Tight (sep.intercalate items) := by
  induction items with
  | nil => exact absurd rfl hne
  | cons item items ih =>
    rw [List.forall_mem_cons] at h
    cases items with
    | nil => simpa using h.1
    | cons next items =>
      rw [List.intercalate_cons_cons]
      exact h.1.append (ih (List.cons_ne_nil _ _) h.2) sep

theorem tight_of_forall {s : List Char} (hne : s ≠ []) (h : ∀ c ∈ s, isWhitespace c = false) :
    Tight s :=
  ⟨⟨s.head hne, List.head?_eq_some_head hne, h _ (List.head_mem hne)⟩,
    s.getLast hne, List.getLast?_eq_some_getLast hne, h _ (List.getLast_mem hne)⟩

theorem tight_quoted (s : List Char) : Tight ('"' :: (s ++ ['"'])) :=
  ⟨⟨'"', rfl, by decide⟩, '"', by simp [List.getLast?_cons], by decide⟩

/-! ## Commas -/

theorem comma_infix_cons (c : Char) (s : List Char) :
    [',', ' '] <:+: c :: s ↔ (c = ',' ∧ s.head? = some ' ') ∨ [',', ' '] <:+: s := by
  rw [List.infix_cons_iff, List.cons_prefix_cons]
  refine or_congr_left (and_congr eq_comm ?_)
  cases s with
  | nil => simp
  | cons d s => simp [List.cons_prefix_cons, eq_comm]

theorem comma_infix_append {a : List Char} (h : ',' ∉ a) (s : List Char) :
    [',', ' '] <:+: a ++ s ↔ [',', ' '] <:+: s := by
  induction a with
  | nil => rfl
  | cons c a ih =>
    rw [List.mem_cons, not_or] at h
    have hne : c ≠ ',' := fun hc => h.1 hc.symm
    rw [List.cons_append, comma_infix_cons, ih h.2]
    simp [hne]

theorem comma_infix_concat {c : Char} (hc : c ≠ ' ') (s : List Char) :
    [',', ' '] <:+: s ++ [c] ↔ [',', ' '] <:+: s := by
  induction s with
  | nil => simp [comma_infix_cons]
  | cons d s ih =>
    rw [List.cons_append, comma_infix_cons, comma_infix_cons, ih]
    cases s with
    | nil => simp [hc]
    | cons e s => simp

theorem not_comma_infix {s : List Char} (h : ',' ∉ s) : ¬ [',', ' '] <:+: s := by
  intro hin
  exact h (hin.subset (by simp))

/-- An escape opens with a backslash and has no comma. -/
theorem escapeJsChar_or (c : Char) : (escapeJsChar c).toList = [c] ∨
    c ≠ ',' ∧ c ≠ ' ' ∧ ',' ∉ (escapeJsChar c).toList ∧
      (escapeJsChar c).toList.head? = some '\\' := by
  fun_cases escapeJsChar c with
  | case7 c _ _ _ _ _ _ hcontrol =>
    have hcode := toNat_lt_of_isControl hcontrol
    have hlt : c.toNat < 160 := by omega
    have hdigit : ∀ n < 16, Nat.digitChar n ≠ ',' := by decide
    have hhigh := hdigit (c.toNat / 16) (by omega)
    have hlow := hdigit (c.toNat % 16) (by omega)
    have hne : c ≠ ',' ∧ c ≠ ' ' := by
      constructor <;> · rintro rfl; simp at hcode
    refine .inr ⟨hne.1, hne.2, ?_, by simp⟩
    simp only [hex4, String.toList_append, String.toList_ofList]
    rw [hexDigits_control c.toNat hlt]
    simp [hhigh.symm, hlow.symm]
  | case8 c => simp
  | _ => simp

theorem toList_escapeJsString (s : String) :
    (escapeJsString s).toList = s.toList.flatMap fun c => (escapeJsChar c).toList := by
  simp [escapeJsString, List.flatMap, Function.comp_def]

theorem head?_escaped (s : List Char) :
    (s.flatMap fun c => (escapeJsChar c).toList).head? = some ' ' ↔ s.head? = some ' ' := by
  cases s with
  | nil => simp
  | cons c s =>
    rcases escapeJsChar_or c with h | ⟨-, hblank, -, hhead⟩
    · simp [h]
    · simp [List.head?_append, hhead, hblank]

/-- Escaping neither makes nor breaks a separator. -/
theorem comma_infix_escaped (s : List Char) :
    [',', ' '] <:+: (s.flatMap fun c => (escapeJsChar c).toList) ↔ [',', ' '] <:+: s := by
  induction s with
  | nil => simp
  | cons c s ih =>
    rw [List.flatMap_cons, comma_infix_cons]
    rcases escapeJsChar_or c with h | ⟨hcomma, -, hnot, -⟩
    · rw [h, List.singleton_append, comma_infix_cons, ih, head?_escaped]
    · rw [comma_infix_append hnot, ih]
      simp [hcomma]

/-! ## Items -/

/-- No comma, no colon and no blank. -/
structure Plain (s : List Char) : Prop where
  nonempty : s ≠ []
  chars : ∀ c ∈ s, isWhitespace c = false ∧ c ≠ ',' ∧ c ≠ ':'

theorem Plain.tight {s : List Char} (h : Plain s) : Tight s :=
  tight_of_forall h.nonempty fun c hc => (h.chars c hc).1

theorem Plain.not_comma_infix {s : List Char} (h : Plain s) : ¬ [',', ' '] <:+: s :=
  Structure.not_comma_infix fun hc => (h.chars ',' hc).2.1 rfl

theorem Plain.colon_not_mem {s : List Char} (h : Plain s) : ':' ∉ s :=
  fun hc => (h.chars ':' hc).2.2 rfl

theorem toNat_of_isIdentChar {c : Char} (h : isIdentChar c = true) :
    c.toNat = 36 ∨ 48 ≤ c.toNat ∧ c.toNat ≤ 57 ∨ 65 ≤ c.toNat ∧ c.toNat ≤ 90 ∨ c.toNat = 95 ∨
      97 ≤ c.toNat ∧ c.toNat ≤ 122 := by
  have hval : c.toNat = c.val.toNat := rfl
  simp only [isIdentChar, Char.isAlphanum, Char.isAlpha, Char.isUpper, Char.isLower, Char.isDigit,
    Bool.or_eq_true, Bool.and_eq_true, decide_eq_true_eq, UInt32.le_iff_toNat_le, ge_iff_le] at h
  rcases h with (((h | h) | h) | rfl) | rfl
  · simp at h
    omega
  · simp at h
    omega
  · simp at h
    omega
  · simp
  · simp

theorem plain_isIdentChar {c : Char} (h : isIdentChar c = true) :
    isWhitespace c = false ∧ c ≠ ',' ∧ c ≠ ':' := by
  have hcode := toNat_of_isIdentChar h
  have hblank : c ≠ ' ' := by rintro rfl; simp at hcode
  refine ⟨?_, by rintro rfl; simp at hcode, by rintro rfl; simp at hcode⟩
  simp [isWhitespace, hblank]
  omega

theorem plain_of_isIdentChar {s : List Char} (hne : s ≠ [])
    (h : ∀ c ∈ s, isIdentChar c = true) : Plain s :=
  ⟨hne, fun c hc => plain_isIdentChar (h c hc)⟩

theorem plain_digit {c : Char} (h : c.isDigit = true) :
    isWhitespace c = false ∧ c ≠ ',' ∧ c ≠ ':' :=
  plain_isIdentChar (by simp [isIdentChar, Char.isAlphanum, h])

theorem NumberText.plain {s : String} (h : NumberText s) : Plain s.toList := by
  refine ⟨by simpa using h.nonempty, fun c hc => ?_⟩
  rcases h.chars c hc with hdigit | rfl | rfl | rfl
  · exact plain_digit hdigit
  · decide
  · decide
  · decide

theorem plain_repr (n : Nat) : Plain (Nat.repr n).toList :=
  ⟨by simp [Nat.repr], fun _ hc => plain_digit (isIdentChar_of_mem_repr hc)⟩

theorem plain_fmtJsDouble (format : DoubleFormat) (v : UInt64) :
    Plain (fmtJsDouble format v).toList := by
  have hnumber : Plain "NaN".toList :=
    plain_of_isIdentChar (by simp) (by simp [isIdentChar, Char.isAlphanum, Char.isAlpha])
  have hinfinity : Plain "Infinity".toList :=
    plain_of_isIdentChar (by simp) (by simp [isIdentChar, Char.isAlphanum, Char.isAlpha])
  simp only [fmtJsDouble]
  split_ifs with hnan hinf hneg hzero hrange
  · exact hnumber
  · exact hinfinity
  · have htext : "-Infinity".toList = '-' :: "Infinity".toList := by simp
    rw [htext]
    exact ⟨by simp, List.forall_mem_cons.mpr ⟨by decide, hinfinity.chars⟩⟩
  · exact plain_repr 0
  · exact (format.display_text v ⟨by simpa using hnan, hinf, hneg⟩).plain
  · exact (format.lowerExp_text v ⟨by simpa using hnan, hinf, hneg⟩).plain

theorem plain_int (n : Int) : Plain (toString n).toList := by
  cases n with
  | ofNat n => exact plain_repr n
  | negSucc n =>
    have htext : (toString (Int.negSucc n)).toList = '-' :: (Nat.repr (n + 1)).toList := by
      simp [toString, Int.repr]
    rw [htext]
    refine ⟨List.cons_ne_nil _ _, List.forall_mem_cons.mpr ⟨by decide, (plain_repr _).chars⟩⟩

section

variable (t : BufferTables)

/-- The text of a value is a quoted string, or it has no blank but inside a comment. -/
theorem valueText_or (l : BufferLiteral) :
    l.tag = 4 ∧ (t.valueText l).toList = '"' ::
        (((t.getStr l.strId).toList.flatMap fun c => (escapeJsChar c).toList) ++ ['"']) ∨
      l.tag ≠ 4 ∧ Tight (t.valueText l).toList ∧ ¬ [',', ' '] <:+: (t.valueText l).toList := by
  have hplain : ∀ {s : List Char}, Plain s → Tight s ∧ ¬ [',', ' '] <:+: s := fun h =>
    ⟨h.tight, h.not_comma_infix⟩
  have hword : ∀ word ∈ ["null", "true", "false", "undefined"], Plain word.toList := by
    simp only [List.forall_mem_cons]
    refine ⟨?_, ?_, ?_, ?_, by simp⟩ <;>
      exact plain_of_isIdentChar (by simp) (by simp [isIdentChar, Char.isAlphanum, Char.isAlpha])
  obtain ⟨tag, strId, ival, dval⟩ := l
  unfold BufferTables.valueText
  dsimp only
  fun_cases bufferItem t.getStr (fmtJsDouble t.format) tag strId ival dval with
  | case1 => exact .inr ⟨by simp, hplain (hword "null" (by simp))⟩
  | case2 => exact .inr ⟨by simp, hplain (hword "true" (by simp))⟩
  | case3 => exact .inr ⟨by simp, hplain (hword "false" (by simp))⟩
  | case4 => exact .inr ⟨by simp, hplain (plain_fmtJsDouble t.format dval)⟩
  | case5 => exact .inl ⟨rfl, by simp [toList_escapeJsString]⟩
  | case6 => exact .inr ⟨by simp, hplain (hword "undefined" (by simp))⟩
  | case7 => exact .inr ⟨by simp, hplain (plain_int ival)⟩
  | case8 =>
    have hcomma : ',' ∉ "/* invalid literal tag */".toList := by simp
    exact .inr ⟨by assumption, ⟨⟨'/', by simp, by decide⟩, '/', by simp, by decide⟩,
      not_comma_infix hcomma⟩

theorem tight_valueText (l : BufferLiteral) : Tight (t.valueText l).toList := by
  rcases valueText_or t l with ⟨-, h⟩ | ⟨-, h, -⟩
  · rw [h]
    exact tight_quoted _
  · exact h

/-- A value has the separator in it only as a string that has it. -/
theorem comma_infix_valueText (l : BufferLiteral) : [',', ' '] <:+: (t.valueText l).toList ↔
    l.tag = 4 ∧ containsText (t.getStr l.strId) ", " = true := by
  rw [containsText, decide_eq_true_iff]
  rcases valueText_or t l with ⟨htag, h⟩ | ⟨htag, -, h⟩
  · rw [h, comma_infix_cons, comma_infix_concat (by decide), comma_infix_escaped]
    simp [htag]
  · exact iff_of_false h fun hstr => htag hstr.1

/-! ## Keys -/

/-- The key is printed without quotes. -/
def BufferTables.PlainKey (key : BufferLiteral) : Prop :=
  key.tag = 4 → t.getStr key.strId = "" ∨ startsWith (t.getStr key.strId) "<" = true ∨
    isValidJsIdent (t.getStr key.strId) = true

theorem isValidJsIdent_append_repr {first : Char} {chars : List Char}
    (hfirst : (first.isAlpha || first = '_' || first = '$') = true)
    (hchars : ∀ c ∈ chars, isIdentChar c = true) (i : Nat) :
    isValidJsIdent (String.ofList (first :: (chars ++ (Nat.repr i).toList))) = true := by
  have hreserved : ∀ w ∈ jsReserved, ∀ c ∈ w.toList, c.isDigit = false := by
    simp [jsReserved]
  have hdigits : ∀ c ∈ (Nat.repr i).toList, c.isDigit = true := fun _ => isIdentChar_of_mem_repr
  have hnot : isJsReserved (String.ofList (first :: (chars ++ (Nat.repr i).toList))) = false := by
    simp only [isJsReserved, List.contains_eq_mem, decide_eq_false_iff_not]
    intro hmem
    obtain ⟨c, hc⟩ := List.exists_mem_of_ne_nil _ (plain_repr i).nonempty
    have hdigit := hreserved _ hmem c (by
      rw [String.toList_ofList]
      exact List.mem_cons_of_mem _ (List.mem_append_right _ hc))
    rw [hdigits c hc] at hdigit
    cases hdigit
  simp only [isValidJsIdent, String.toList_ofList, hnot, hfirst, Bool.not_false, Bool.and_true,
    Bool.true_and, List.all_eq_true, List.mem_append]
  rintro c (hc | hc)
  · exact hchars c hc
  · simp [Char.isAlphanum, hdigits c hc]

theorem isValidJsIdent_keyText {key : BufferLiteral} (h : t.PlainKey key) (i : Nat) :
    isValidJsIdent (t.keyText i key) = true := by
  rw [BufferTables.keyText, bufferKey]
  split
  · next htag =>
    dsimp only
    split_ifs with hname hident
    · have htext : "_" ++ Nat.repr i = String.ofList ('_' :: ([] ++ (Nat.repr i).toList)) := by
        simp [← String.toList_inj]
      rw [htext]
      exact isValidJsIdent_append_repr (by decide) (by simp) i
    · exact hident
    · rw [not_or] at hname
      rcases h htag with he | hs | hv
      · exact absurd he hname.1
      · exact absurd hs hname.2
      · exact absurd hv hident
  · have htext : "key" ++ Nat.repr i =
        String.ofList ('k' :: (['e', 'y'] ++ (Nat.repr i).toList)) := by
      simp [← String.toList_inj]
    rw [htext]
    exact isValidJsIdent_append_repr (by decide) (by simp [isIdentChar, Char.isAlphanum,
      Char.isAlpha]) i

theorem plain_keyText {key : BufferLiteral} (h : t.PlainKey key) (i : Nat) :
    Plain (t.keyText i key).toList := by
  have hident := isValidJsIdent_keyText t h i
  refine plain_of_isIdentChar (fun hnil => ?_) fun _ => isIdentChar_of_isValidJsIdent hident
  simp [isValidJsIdent, hnil] at hident

/-- A quoted key gets a second pair of quotes. -/
theorem entryKeyText_keyText (i : Nat) (key : BufferLiteral) :
    entryKeyText (t.keyText i key) = t.keyText i key ↔ t.PlainKey key := by
  constructor
  · intro hsame
    by_contra h
    simp only [BufferTables.PlainKey, not_forall, not_or] at h
    obtain ⟨htag, hempty, hstart, hident⟩ := h
    have htext : ∃ s : List Char, t.keyText i key = String.ofList ('"' :: (s ++ ['"'])) := by
      refine ⟨(t.getStr key.strId).toList.flatMap escapeBufferKeyChar, ?_⟩
      rw [BufferTables.keyText, bufferKey, if_pos htag]
      dsimp only
      rw [if_neg (by simp [hempty, hstart]), if_neg hident]
      simp [← String.toList_inj]
    obtain ⟨s, htext⟩ := htext
    have hquoted : isValidJsIdent (String.ofList ('"' :: (s ++ ['"']))) = false := by
      simp [isValidJsIdent, Char.isAlpha]
    rw [htext, entryKeyText, hquoted, ← String.toList_inj] at hsame
    have hlen := congrArg List.length hsame
    have hone : ∀ c, 1 ≤ (escapeEntryKeyChar c).length := by
      intro c
      fun_cases escapeEntryKeyChar c <;> simp
    have hescaped : ∀ l : List Char, l.length ≤ (l.flatMap escapeEntryKeyChar).length := by
      intro l
      induction l with
      | nil => simp
      | cons c l ih =>
        have hc := hone c
        simp only [List.flatMap_cons, List.length_append, List.length_cons]
        omega
    have hs := hescaped ('"' :: (s ++ ['"']))
    simp at hlen hs
    omega
  · intro h
    rw [entryKeyText, if_pos (isValidJsIdent_keyText t h i)]

end

end Hermes.Structure
