-- SUMMARY: Exactly which literal texts are read back as the items they were made of.
import DroidsawHermes.Lib.Separated
import DroidsawHermes.Structure.LiteralBuffers

/-!
# Literal texts

The text of a buffer is cut at commas and colons again. It is read back unless a string
contains the separator or a key was printed in quotes, which then get quotes of their own.
-/

namespace Hermes.Structure

open Decompile Separated

/-! ## Arrays -/

theorem toList_comma : ", ".toList = [',', ' '] := by simp

theorem toList_joinComma (items : List String) :
    (joinComma items).toList = [',', ' '].intercalate (items.map String.toList) := by
  rw [joinComma, String.toList_intercalate, toList_comma]

theorem map_ofList_toList (items : List String) :
    (items.map String.toList).map String.ofList = items := by
  simp [Function.comp_def]

theorem tight_joinComma {items : List String} (hne : items ≠ [])
    (h : ∀ item ∈ items, Tight item.toList) : Tight (joinComma items).toList := by
  rw [toList_joinComma]
  exact tight_intercalate _ (by simpa using hne) (by simpa using h)

/-- The parts of joined texts. -/
theorem splitOn_joinComma {items : List String} (hne : items ≠ []) :
    (joinComma items).splitOn ", "
      = ((items.map String.toList).flatMap (cut [',', ' '])).map String.ofList := by
  rw [splitOn_eq _ (by simp), toList_joinComma, toList_comma]
  exact congrArg _ (cut_intercalate (by simp) (by simpa using hne))

theorem map_ofList_injective : Function.Injective (List.map String.ofList) :=
  List.map_injective_iff.mpr fun _ _ h => String.ofList_injective h

theorem splitOn_joinComma_iff {items : List String} (hne : items ≠ []) :
    (joinComma items).splitOn ", " = items ↔ ∀ item ∈ items, ¬ [',', ' '] <:+: item.toList := by
  have hcut : cut [',', ' '] ([',', ' '].intercalate (items.map String.toList))
      = items.map String.toList ↔ ∀ item ∈ items.map String.toList, ¬ [',', ' '] <:+: item :=
    cut_intercalate_iff (by simp) (by simpa using hne)
  have hitems : (cut [',', ' '] ([',', ' '].intercalate (items.map String.toList))).map String.ofList
      = items ↔ cut [',', ' '] ([',', ' '].intercalate (items.map String.toList))
        = items.map String.toList := by
    rw [← map_ofList_injective.eq_iff, map_ofList_toList]
  rw [splitOn_eq _ (by simp), toList_joinComma, toList_comma, hitems, hcut]
  simp

theorem length_splitOn_joinComma {items : List String} (hne : items ≠ [])
    (h : ((joinComma items).splitOn ", ").length = items.length) :
    ∀ item ∈ items, ¬ [',', ' '] <:+: item.toList := by
  rw [splitOn_joinComma hne, List.length_map] at h
  have hnot : ∀ item ∈ items.map String.toList, ¬ [',', ' '] <:+: item :=
    not_infix_of_length_flatMap_cut (by simp) (by simpa using h)
  simpa using hnot

theorem insideBrackets_arrayContent {items : List String}
    (h : ∀ item ∈ items, Tight item.toList) :
    insideBrackets (arrayContent items).toList = (joinComma items).toList := by
  have htext : (arrayContent items).toList = '[' :: ((joinComma items).toList ++ [']']) := by
    simp [arrayContent]
  have htight : Tight ('[' :: ((joinComma items).toList ++ [']'])) :=
    ⟨⟨'[', rfl, by decide⟩, ']', by simp [List.getLast?_cons], by decide⟩
  rw [insideBrackets, htext, trim_of_tight htight]
  simp only [List.getLast?_concat, if_true, List.dropLast_concat]
  by_cases hne : items = []
  · subst hne
    rfl
  · exact trim_of_tight (tight_joinComma hne h)

/-- What the spread literal of an array reads out of the text of its items. -/
theorem arraySpread_arrayContent {items : List String} (h : ∀ item ∈ items, Tight item.toList)
    (dst src trailing : SsaOperand) :
    arraySpread [dst, .resolvedString (arrayContent items), src, trailing]
      = .arrayLit ((if items = [] then [] else ((joinComma items).splitOn ", ").map Expr.raw)
          ++ [.spread (operandToExpr src), operandToExpr trailing]) := by
  have hinside := insideBrackets_arrayContent h
  have hempty : (joinComma items).toList = [] ↔ items = [] := by
    constructor
    · intro hnil
      by_contra hne
      exact (tight_joinComma hne h).ne_nil hnil
    · rintro rfl
      rfl
  simp only [arraySpread, List.getElem?_cons_succ, List.getElem?_cons_zero, hinside, hempty,
    String.ofList_toList, operandAt]
  rfl

/-! ## Objects -/

def pairText (p : String × String) : String := p.1 ++ ": " ++ p.2

theorem insideBraces_objectContent {props : List (String × String)} (hne : props ≠ [])
    (h : ∀ p ∈ props, Tight (pairText p).toList) :
    insideBraces (objectContent props).toList = some (joinComma (props.map pairText)).toList := by
  have hjoin : Tight (joinComma (props.map pairText)).toList :=
    tight_joinComma (by simpa using hne) (List.forall_mem_map.mpr h)
  have htext : (objectContent props).toList =
      '{' :: ((' ' :: ((joinComma (props.map pairText)).toList ++ [' '])) ++ ['}']) := by
    simp [objectContent]
    rfl
  have htight : Tight (objectContent props).toList := by
    rw [htext]
    exact ⟨⟨'{', rfl, by decide⟩, '}', by simp [List.getLast?_cons], by decide⟩
  rw [insideBraces, trim_of_tight htight, htext]
  simp only [List.getLast?_concat, if_true, List.dropLast_concat, trim_padded hjoin]

/-- The entry that a pair is read back as. -/
def pairEntry (p : String × String) : ObjectSpreadEntry := .keyVal p.1 (.resolvedString p.2)

section

variable {p : String × String} {props : List (String × String)} {op : SsaOp}

theorem tight_pairText (hkey : Plain p.1.toList) (hvalue : Tight p.2.toList) :
    Tight (pairText p).toList := by
  have htext := hkey.tight.append hvalue [':', ' ']
  simpa [pairText] using htext

theorem prefixEntry_pairText (hkey : Plain p.1.toList) (hvalue : Tight p.2.toList) :
    prefixEntry (pairText p) = some (pairEntry p) := by
  have htext : (pairText p).toList = p.1.toList ++ (':' :: [' '] ++ p.2.toList) := by
    simp [pairText]
  have hsep : ": ".toList = [':', ' '] := by simp
  rw [prefixEntry, htext, hsep, cutOnce_append hkey.colon_not_mem]
  simp [pairEntry, trim_of_tight hkey.tight, trim_of_tight hvalue]

theorem prefixEntries_map (h : ∀ p ∈ props, Plain p.1.toList ∧ Tight p.2.toList) :
    prefixEntries (props.map pairText) = some (props.map pairEntry) := by
  induction props with
  | nil => rfl
  | cons p props ih =>
    rw [List.forall_mem_cons] at h
    simp [prefixEntries, prefixEntry_pairText h.1.1 h.1.2, ih h.2]

theorem length_prefixEntries {pairs : List String} {entries : List ObjectSpreadEntry}
    (h : prefixEntries pairs = some entries) : entries.length = pairs.length := by
  induction pairs generalizing entries with
  | nil =>
    cases h
    rfl
  | cons pair pairs ih =>
    simp only [prefixEntries, Option.bind_eq_some_iff, Option.map_eq_some_iff] at h
    obtain ⟨entry, -, entries, hentries, rfl⟩ := h
    simp [ih hentries]

theorem comma_infix_pairText (hkey : Plain p.1.toList) :
    [',', ' '] <:+: (pairText p).toList ↔ [',', ' '] <:+: p.2.toList := by
  have htext : (pairText p).toList = (p.1.toList ++ [':', ' ']) ++ p.2.toList := by
    simp [pairText]
  have hcomma : ',' ∉ p.1.toList ++ [':', ' '] := by
    simpa using fun hc => (hkey.chars ',' hc).2.1 rfl
  rw [htext, comma_infix_append hcomma]

theorem objectBufferPrefixEntries_iff (hname : op.name ∈ objectBufferNames)
    (hop : op.operands[1]? = some (.resolvedString (objectContent props)))
    (h : ∀ p ∈ props, Plain p.1.toList ∧ Tight p.2.toList) :
    objectBufferPrefixEntries op = some (props.map pairEntry) ↔
      ∀ p ∈ props, ¬ [',', ' '] <:+: p.2.toList := by
  have hpairs : ∀ p ∈ props, Tight (pairText p).toList := fun p hp =>
    tight_pairText (h p hp).1 (h p hp).2
  rw [objectBufferPrefixEntries, if_pos hname, hop]
  by_cases hne : props = []
  · subst hne
    have hinside : insideBraces (objectContent []).toList = some [] := by
      simp [objectContent, joinComma, insideBraces, trim, isWhitespace, List.dropWhile]
    simp [hinside]
  · have hmap : props.map pairText ≠ [] := by simpa using hne
    have hjoin := (tight_joinComma hmap (List.forall_mem_map.mpr hpairs)).ne_nil
    have hall : (∀ p ∈ props, ¬ [',', ' '] <:+: p.2.toList) ↔
        ∀ pair ∈ props.map pairText, ¬ [',', ' '] <:+: pair.toList := by
      rw [List.forall_mem_map]
      exact forall₂_congr fun p hp => not_congr (comma_infix_pairText (h p hp).1).symm
    simp only [insideBraces_objectContent hne hpairs, Option.bind_some, if_neg hjoin,
      String.ofList_toList]
    rw [hall]
    constructor
    · intro hentries
      have hlen := length_prefixEntries hentries
      exact length_splitOn_joinComma hmap (by simpa using hlen.symm)
    · intro hnot
      rw [(splitOn_joinComma_iff hmap).mpr hnot, prefixEntries_map h]

end

theorem spreadEntries_push (entries : List ObjectSpreadEntry) :
    ∃ printed, spreadEntries (entries.flatMap pushObjectSpreadEntry) = .ok printed ∧
      printedKeys (.objectLit printed) = entries.filterMap fun
        | .keyVal key _ => some (entryKeyText key)
        | .spread _ => none := by
  induction entries with
  | nil => exact ⟨[], rfl, rfl⟩
  | cons entry entries ih =>
    obtain ⟨printed, hspread, hkeys⟩ := ih
    cases entry with
    | keyVal key value =>
      refine ⟨.keyVal key (tokenExpr value) :: printed, ?_, ?_⟩
      · simp [pushObjectSpreadEntry, spreadEntries, spreadEntry, hspread, Except.map]
      · simpa [printedKeys] using hkeys
    | spread value =>
      refine ⟨.spread (tokenExpr value) :: printed, ?_, ?_⟩
      · simp [pushObjectSpreadEntry, spreadEntries, spreadEntry, hspread, Except.map]
      · simpa [printedKeys] using hkeys

/-! ## Round trip -/

/-- The literals of an array, or the keys and values of an object. -/
inductive Buffered where
  | array (items : List BufferLiteral)
  | object (props : List (BufferLiteral × BufferLiteral))

section

variable (t : BufferTables)

/-- The text is read back as the texts it was made of, and the keys are printed as they were. -/
def BufferTables.SplitsBack : Buffered → Prop
  | .array items => ∀ dst src trailing,
    arraySpread [dst, .resolvedString (t.arrayText items), src, trailing]
      = .arrayLit (items.map (Expr.raw ∘ t.valueText)
          ++ [.spread (operandToExpr src), operandToExpr trailing])
  | .object props => ∀ op : SsaOp, op.name ∈ objectBufferNames →
    op.operands[1]? = some (.resolvedString (t.objectText props)) →
    objectBufferPrefixEntries op = some ((t.entryTexts props).map pairEntry) ∧
      ∀ dst, printedKeys (objectSpread
        (dst :: ((t.entryTexts props).map pairEntry).flatMap pushObjectSpreadEntry))
          = (t.entryTexts props).map Prod.fst

/-- A string with a comma and a blank in it. -/
def BufferTables.HasSeparator (l : BufferLiteral) : Prop :=
  l.tag = 4 ∧ containsText (t.getStr l.strId) ", " = true

def BufferTables.Splittable : Buffered → Prop
  | .array items => ∀ l ∈ items, ¬ t.HasSeparator l
  | .object props => ∀ p ∈ props, t.PlainKey p.1 ∧ ¬ t.HasSeparator p.2

theorem splitsBack_array_iff (items : List BufferLiteral) :
    t.SplitsBack (.array items) ↔ ∀ l ∈ items, ¬ t.HasSeparator l := by
  have htight : ∀ item ∈ items.map t.valueText, Tight item.toList :=
    List.forall_mem_map.mpr fun l _ => tight_valueText t l
  have hread : t.SplitsBack (.array items) ↔ (if items.map t.valueText = [] then []
      else ((joinComma (items.map t.valueText)).splitOn ", ").map Expr.raw)
        = (items.map t.valueText).map Expr.raw := by
    simp only [BufferTables.SplitsBack, BufferTables.arrayText, arraySpread_arrayContent htight,
      Expr.arrayLit.injEq, List.append_cancel_right_eq, List.map_map]
    exact ⟨fun h => h .dstPlaceholder .dstPlaceholder .dstPlaceholder, fun h _ _ _ => h⟩
  rw [hread]
  by_cases hne : items.map t.valueText = []
  · rw [if_pos hne]
    simp_all
  · have hraw : Function.Injective (List.map Expr.raw) :=
      List.map_injective_iff.mpr fun _ _ h => Expr.raw.inj h
    rw [if_neg hne, hraw.eq_iff, splitOn_joinComma_iff hne, List.forall_mem_map]
    exact forall₂_congr fun l _ => not_congr (comma_infix_valueText t l)

theorem printedKeys_objectSpread (dst : SsaOperand) (texts : List (String × String)) :
    printedKeys (objectSpread (dst :: (texts.map pairEntry).flatMap pushObjectSpreadEntry))
      = texts.map fun p => entryKeyText p.1 := by
  obtain ⟨printed, hspread, hkeys⟩ := spreadEntries_push (texts.map pairEntry)
  rw [objectSpread, List.drop_one, List.tail_cons, hspread, hkeys]
  simp [List.filterMap_map, Function.comp_def, pairEntry]

/-- A statement about the entries of an object that leaves the index out. -/
theorem forall_mem_entryTexts {props : List (BufferLiteral × BufferLiteral)}
    {P : String × String → Prop} {Q : BufferLiteral × BufferLiteral → Prop}
    (h : ∀ i p, P (t.keyText i p.1, t.valueText p.2) ↔ Q p) :
    (∀ p ∈ t.entryTexts props, P p) ↔ ∀ p ∈ props, Q p := by
  rw [BufferTables.entryTexts, List.forall_mem_map]
  conv_rhs => rw [← List.zipIdx_map_fst 0 props, List.forall_mem_map]
  exact forall₂_congr fun p _ => h p.2 p.1

theorem splitsBack_object_iff (props : List (BufferLiteral × BufferLiteral)) :
    t.SplitsBack (.object props) ↔ ∀ p ∈ props, t.PlainKey p.1 ∧ ¬ t.HasSeparator p.2 := by
  have hsame : (∀ dst, printedKeys (objectSpread
      (dst :: ((t.entryTexts props).map pairEntry).flatMap pushObjectSpreadEntry))
        = (t.entryTexts props).map Prod.fst) ↔ ∀ p ∈ props, t.PlainKey p.1 := by
    have hkeys : (∀ p ∈ t.entryTexts props, entryKeyText p.1 = p.1) ↔
        ∀ p ∈ props, t.PlainKey p.1 :=
      forall_mem_entryTexts t (P := fun p => entryKeyText p.1 = p.1)
        fun i p => entryKeyText_keyText t i p.1
    rw [← hkeys, ← List.map_inj_left]
    simp only [printedKeys_objectSpread]
    exact ⟨fun h => h .dstPlaceholder, fun h _ => h⟩
  have hsplit : (∀ p ∈ props, t.PlainKey p.1) → ∀ op : SsaOp, op.name ∈ objectBufferNames →
      op.operands[1]? = some (.resolvedString (t.objectText props)) →
      (objectBufferPrefixEntries op = some ((t.entryTexts props).map pairEntry) ↔
        ∀ p ∈ props, ¬ t.HasSeparator p.2) := by
    intro hkeys op hname hop
    have hplain : ∀ p ∈ t.entryTexts props, Plain p.1.toList ∧ Tight p.2.toList := by
      intro p hp
      obtain ⟨⟨p, i⟩, hmem, rfl⟩ := List.mem_map.mp hp
      exact ⟨plain_keyText t (hkeys p (List.fst_mem_of_mem_zipIdx hmem)) i, tight_valueText t p.2⟩
    rw [objectBufferPrefixEntries_iff hname hop hplain]
    exact forall_mem_entryTexts t fun _ p => not_congr (comma_infix_valueText t p.2)
  constructor
  · intro h
    let op : SsaOp := ⟨"NewObjectWithBuffer", none,
      [.dstPlaceholder, .resolvedString (t.objectText props)],
      ⟨0, 0, "NewObjectWithBuffer", []⟩⟩
    have hop := h op (by simp [op, objectBufferNames]) rfl
    have hkeys := hsame.mp hop.2
    have hvalues := (hsplit hkeys op (by simp [op, objectBufferNames]) rfl).mp hop.1
    exact fun p hp => ⟨hkeys p hp, hvalues p hp⟩
  · intro h op hname hop
    have hkeys : ∀ p ∈ props, t.PlainKey p.1 := fun p hp => (h p hp).1
    exact ⟨(hsplit hkeys op hname hop).mpr fun p hp => (h p hp).2, hsame.mpr hkeys⟩

/-- Strings are not escaped against the separator, and quoted keys are quoted again. -/
theorem splitsBack_iff (buffered : Buffered) :
    t.SplitsBack buffered ↔ t.Splittable buffered := by
  cases buffered with
  | array items => exact splitsBack_array_iff t items
  | object props => exact splitsBack_object_iff t props

end

/-- Tables whose only string is the given one. -/
def oneString (s : String) : BufferTables where
  getStr := fun _ => s
  getLiteral := fun _ _ _ _ => ⟨4, 0, 0, 0⟩
  getShape := fun _ => (0, 1)
  format := ⟨fun _ => "0", fun _ => "0", fun _ _ => ⟨by simp, by simp⟩, fun _ _ => ⟨by simp, by simp⟩⟩

/-- The array `["a, b"]` is read back as two items, and the key `a-b` gets a second pair of
quotes. -/
theorem commaString_not_splitsBack :
    ¬ (oneString "a, b").SplitsBack (.array [⟨4, 0, 0, 0⟩]) ∧
      ¬ (oneString "a-b").SplitsBack (.object [(⟨4, 0, 0, 0⟩, ⟨0, 0, 0, 0⟩)]) := by
  constructor
  · rw [splitsBack_array_iff]
    intro h
    refine h ⟨4, 0, 0, 0⟩ (by simp) ⟨rfl, ?_⟩
    decide
  · rw [splitsBack_object_iff]
    intro h
    rcases (h _ (List.mem_singleton.mpr rfl)).1 rfl with hempty | hstart | hident
    · simp [oneString] at hempty
    · revert hstart
      decide
    · revert hident
      decide

end Hermes.Structure
