-- SUMMARY: Stripping of the hoist preamble from a printed text, and the texts for which it removes the documented lines only.
import DroidsawHermes.Lib.Lines
import DroidsawHermes.Lib.Separated
import DroidsawHermes.Structure.BuildExpr

/-!
# Hoist preamble

`strip_module_hoist_preamble` of `decompile/emit.rs`. A first pass over the lines finds
the names that have both a closure placeholder and a self-reassignment, a second pass
drops their lines.
-/

namespace Hermes.Structure

open Decompile Lines Separated

/-! ## The pass -/

/-- `str::trim_start`. -/
def trimStart (s : List Char) : List Char := s.dropWhile isWhitespace

def isBareIdent : List Char → Bool
  | [] => false
  | c :: cs =>
    (c.isAlpha || c == '_' || c == '$') && cs.all fun c => c.isAlphanum || c == '_' || c == '$'

def closureKinds : List (List Char) := ["closure".toList, "async".toList, "generator".toList]

/-- A character that ends the kind of a placeholder. -/
def endsKind (c : Char) : Bool := c == ' ' || c == '#'

def parseClosurePlaceholder (trimmed : List Char) : Option (List Char) := do
  let rest ← stripPrefix? "var ".toList trimmed
  let (name, tail) ← cutOnce " = null /* ".toList rest
  if isBareIdent name then
    -- `find` has to meet the end of the kind
    if tail.any endsKind && closureKinds.contains (tail.takeWhile (!endsKind ·)) then
      if "*/;".toList <:+ tail then some name else none
    else none
  else none

def parseGlobalSelfReassign (trimmed : List Char) : Option (List Char) := do
  let rest ← stripPrefix? "globalThis.".toList trimmed
  let semi ← stripSuffix? ";".toList rest
  let (lhs, rhs) ← cutOnce " = ".toList semi
  if lhs = rhs && isBareIdent lhs then some lhs else none

/-- The names of the placeholders among the lines. -/
def closureDecls (ls : List (List Char)) : List (List Char) :=
  ls.filterMap fun line => parseClosurePlaceholder (trimStart line)

def selfReassigns (ls : List (List Char)) : List (List Char) :=
  ls.filterMap fun line => parseGlobalSelfReassign (trimStart line)

def dropPair (ls : List (List Char)) (name : List Char) : Bool :=
  (closureDecls ls).contains name && (selfReassigns ls).contains name

/-- Rule A. -/
def isGlobalDecl (trimmed : List Char) : Bool :=
  "/* global */ var ".toList.isPrefixOf trimmed && ";".toList.isSuffixOf trimmed

/-- Rules A, B1 and B2. -/
def dropsLine (pairs : List Char → Bool) (line : List Char) : Bool :=
  let trimmed := trimStart line
  isGlobalDecl trimmed || (parseClosurePlaceholder trimmed).any pairs ||
    (parseGlobalSelfReassign trimmed).any pairs

def keptLines (ls : List (List Char)) : List (List Char) :=
  ls.filter fun line => !dropsLine (dropPair ls) line

def stripModuleHoistPreamble (raw : List Char) : List Char :=
  let out := joinLines (keptLines (lines raw))
  if raw.getLast? ≠ some '\n' ∧ out.getLast? = some '\n' then out.dropLast else out

/-! ## The documented lines -/

/-- A declaration `/* global */ var ...;`. -/
def GlobalDecl (line : List Char) : Prop :=
  ∃ rest, trimStart line = "/* global */ var ".toList ++ rest ++ ";".toList

/-- `var NAME = null /* kind...*/;`, where the comment may end before the line does. -/
structure PlaceholderText (name rest line : List Char) : Prop where
  ident : isBareIdent name = true
  head : rest.head?.any endsKind = true
  text : ∃ kind ∈ closureKinds,
    trimStart line = "var ".toList ++ name ++ " = null /* ".toList ++ kind ++ rest ++ "*/;".toList

/-- The comment of the placeholder ends with the line. -/
def ClosurePlaceholder (name line : List Char) : Prop :=
  ∃ rest, PlaceholderText name rest line ∧ ¬ "*/".toList <:+: rest

/-- A placeholder with text behind its comment. -/
def BrokenPlaceholder (name line : List Char) : Prop :=
  ∃ rest, PlaceholderText name rest line ∧ "*/".toList <:+: rest

def SelfReassign (name line : List Char) : Prop :=
  isBareIdent name = true ∧
    trimStart line = "globalThis.".toList ++ name ++ " = ".toList ++ name ++ ";".toList

/-- The line is a documented one, of a name that occurs in both forms. -/
def HoistLine (ls : List (List Char)) (line : List Char) : Prop :=
  GlobalDecl line ∨ ∃ name, (ClosurePlaceholder name line ∨ SelfReassign name line) ∧
    (∃ l ∈ ls, ClosurePlaceholder name l) ∧ ∃ l ∈ ls, SelfReassign name l

open Classical in
/-- The lines of a text that are to stay. -/
noncomputable def documentedLines (raw : List Char) : List (List Char) :=
  (lines raw).filter fun line => ¬ HoistLine (lines raw) line

/-- The pass removes the documented lines and nothing else. -/
structure StripsExactly (raw : List Char) : Prop where
  kept : lines (stripModuleHoistPreamble raw) = documentedLines raw
  newline : (stripModuleHoistPreamble raw).getLast? = some '\n' → raw.getLast? = some '\n'
  idempotent : stripModuleHoistPreamble (stripModuleHoistPreamble raw) =
    stripModuleHoistPreamble raw

/-- No kept line ends with a carriage return, but for the last kept one of a text without a line
feed at its end; such a text does not keep an empty line last; and a name whose placeholder is
broken has no self-reassignment. -/
structure KeepsLines (raw : List Char) : Prop where
  returns : ∀ line ∈ (if raw.getLast? = some '\n' then documentedLines raw
    else (documentedLines raw).dropLast), line.getLast? ≠ some '\r'
  last : raw.getLast? ≠ some '\n' → (documentedLines raw).getLast? ≠ some []
  placeholders : ∀ name, (∃ l ∈ lines raw, BrokenPlaceholder name l) →
    ∀ l ∈ lines raw, ¬ SelfReassign name l

/-! ## The parsers -/

theorem space_notMem_of_isBareIdent {name : List Char} (h : isBareIdent name = true) :
    ' ' ∉ name := by
  cases name with
  | nil => exact List.not_mem_nil
  | cons c cs =>
    rw [isBareIdent, Bool.and_eq_true, List.all_eq_true] at h
    intro hmem
    rcases List.mem_cons.mp hmem with rfl | hmem
    · exact absurd h.1 (by decide)
    · exact absurd (h.2 ' ' hmem) (by decide)

theorem isGlobalDecl_iff {line : List Char} :
    isGlobalDecl (trimStart line) = true ↔ GlobalDecl line := by
  rw [isGlobalDecl, Bool.and_eq_true, List.isPrefixOf_iff_prefix, List.isSuffixOf_iff_suffix,
    GlobalDecl]
  constructor
  · rintro ⟨⟨tail, htail⟩, ⟨front, hfront⟩⟩
    rcases List.eq_nil_or_concat tail with rfl | ⟨rest, c, rfl⟩
    · -- the declaration would end with its own blank
      rw [← hfront, List.append_nil] at htail
      have hlast := congrArg List.getLast? htail
      rw [List.getLast?_append_of_ne_nil _ (by decide)] at hlast
      exact absurd hlast (by decide)
    · rw [← htail, List.concat_eq_append, ← List.append_assoc] at hfront
      obtain ⟨-, hc⟩ := List.append_inj' hfront rfl
      exact ⟨rest, by rw [← htail, List.concat_eq_append, ← List.append_assoc, hc]⟩
  · rintro ⟨rest, htext⟩
    rw [htext]
    exact ⟨⟨rest ++ ";".toList, by simp⟩, List.suffix_append _ _⟩

theorem takeWhile_kind {kind rest : List Char} (hkind : kind ∈ closureKinds)
    (hrest : rest.head?.any endsKind = true) (stop : List Char) :
    (kind ++ (rest ++ stop)).takeWhile (!endsKind ·) = kind := by
  have hchars : ∀ kind ∈ closureKinds, ∀ c ∈ kind, (!endsKind c) = true := by
    simp [closureKinds, endsKind]
  cases rest with
  | nil => cases hrest
  | cons c rest =>
    have hc : endsKind c = true := hrest
    rw [List.takeWhile_append_of_pos (hchars kind hkind), List.cons_append,
      List.takeWhile_cons_of_neg (by simp [hc]), List.append_nil]

/-- What stands behind the kind, up to the end of the comment. -/
theorem exists_rest {tail : List Char} (hany : tail.any endsKind = true)
    (hstop : "*/;".toList <:+ tail) :
    ∃ rest, rest.head?.any endsKind = true ∧
      tail = tail.takeWhile (!endsKind ·) ++ rest ++ "*/;".toList := by
  have hstopChars : ∀ c ∈ "*/;".toList, endsKind c = false := by simp [endsKind]
  have hsplit := List.takeWhile_append_dropWhile (p := (!endsKind ·)) (l := tail)
  have hhead := List.head?_dropWhile_not (!endsKind ·) tail
  have hsuffix := List.dropWhile_suffix (!endsKind ·) (l := tail)
  cases hdrop : tail.dropWhile (!endsKind ·) with
  | nil =>
    obtain ⟨c, hc, hends⟩ := List.any_eq_true.mp hany
    have hnot := List.dropWhile_eq_nil_iff.mp hdrop c hc
    simp [hends] at hnot
  | cons c after =>
    rw [hdrop] at hsplit hhead hsuffix
    have hends : endsKind c = true := by simpa using hhead
    rcases List.suffix_or_suffix_of_suffix hstop hsuffix with ⟨rest, hrest⟩ | hshort
    · refine ⟨rest, ?_, by rw [List.append_assoc, hrest, hsplit]⟩
      cases rest with
      | nil =>
        cases hrest
        exact absurd hends (by decide)
      | cons d rest =>
        cases hrest
        exact hends
    · rw [hstopChars c (hshort.subset List.mem_cons_self)] at hends
      cases hends

theorem parseClosurePlaceholder_eq_some {line name : List Char} :
    parseClosurePlaceholder (trimStart line) = some name ↔
      ∃ rest, PlaceholderText name rest line := by
  constructor
  · intro h
    obtain ⟨afterVar, hvar, h⟩ := Option.bind_eq_some_iff.mp h
    obtain ⟨⟨name', tail⟩, hcut, h⟩ := Option.bind_eq_some_iff.mp h
    dsimp only at h
    split at h
    · next hident =>
      split at h
      · next hkind =>
        split at h
        · next hstop =>
          cases h
          rw [Bool.and_eq_true, List.contains_iff_mem] at hkind
          obtain ⟨rest, hhead, htail⟩ := exists_rest hkind.1 hstop
          refine ⟨rest, hident, hhead, _, hkind.2, ?_⟩
          rw [stripPrefix?_eq_some.mp hvar, eq_of_cutOnce hcut]
          conv_lhs => rw [htail]
          simp only [List.append_assoc]
        · cases h
      · cases h
    · cases h
  · rintro ⟨rest, hident, hhead, kind, hkind, htext⟩
    have hspace := space_notMem_of_isBareIdent hident
    have hcut : cutOnce " = null /* ".toList
        (name ++ (" = null /* ".toList ++ (kind ++ (rest ++ "*/;".toList)))) =
          some (name, kind ++ (rest ++ "*/;".toList)) := cutOnce_append hspace _
    have hany : (kind ++ (rest ++ "*/;".toList)).any endsKind = true := by
      cases rest with
      | nil => cases hhead
      | cons c rest =>
        have hc : endsKind c = true := hhead
        simp [hc]
    have hstop : "*/;".toList <:+ kind ++ (rest ++ "*/;".toList) :=
      ⟨kind ++ rest, by rw [List.append_assoc]⟩
    have hprefix : stripPrefix? "var ".toList (trimStart line) =
        some (name ++ (" = null /* ".toList ++ (kind ++ (rest ++ "*/;".toList)))) :=
      stripPrefix?_eq_some.mpr (by rw [htext]; simp only [List.append_assoc])
    simp only [parseClosurePlaceholder, hprefix, Option.bind_eq_bind, Option.bind_some, hcut,
      hident, if_true, hany, takeWhile_kind hkind hhead, Bool.true_and,
      List.contains_iff_mem.mpr hkind, hstop]

theorem parseGlobalSelfReassign_eq_some {line name : List Char} :
    parseGlobalSelfReassign (trimStart line) = some name ↔ SelfReassign name line := by
  constructor
  · intro h
    obtain ⟨rest, hstart, h⟩ := Option.bind_eq_some_iff.mp h
    obtain ⟨semi, hstop, h⟩ := Option.bind_eq_some_iff.mp h
    obtain ⟨⟨lhs, rhs⟩, hcut, h⟩ := Option.bind_eq_some_iff.mp h
    dsimp only at h
    split at h
    · next hsame =>
      cases h
      rw [Bool.and_eq_true, decide_eq_true_eq] at hsame
      obtain ⟨rfl, hident⟩ := hsame
      refine ⟨hident, ?_⟩
      rw [stripPrefix?_eq_some.mp hstart, stripSuffix?_eq_some.mp hstop, eq_of_cutOnce hcut]
      simp only [List.append_assoc]
    · cases h
  · rintro ⟨hident, htext⟩
    have hcut : cutOnce " = ".toList (name ++ (" = ".toList ++ name)) = some (name, name) :=
      cutOnce_append (space_notMem_of_isBareIdent hident) _
    have hstart : stripPrefix? "globalThis.".toList (trimStart line) =
        some (name ++ (" = ".toList ++ name) ++ ";".toList) :=
      stripPrefix?_eq_some.mpr (by rw [htext]; simp only [List.append_assoc])
    have hstop : stripSuffix? ";".toList (name ++ (" = ".toList ++ name) ++ ";".toList) =
        some (name ++ (" = ".toList ++ name)) := stripSuffix?_eq_some.mpr rfl
    simp only [parseGlobalSelfReassign, hstart, hstop, hcut, Option.bind_eq_bind,
      Option.bind_some, hident, decide_true, Bool.and_true, if_true]

/-- A line is a placeholder in one way. -/
theorem PlaceholderText.unique {name name' rest rest' line : List Char}
    (h : PlaceholderText name rest line) (h' : PlaceholderText name' rest' line) :
    name = name' ∧ rest = rest' := by
  have hname : name = name' := Option.some.inj
    ((parseClosurePlaceholder_eq_some.mpr ⟨rest, h⟩).symm.trans
      (parseClosurePlaceholder_eq_some.mpr ⟨rest', h'⟩))
  subst hname
  obtain ⟨kind, hkind, htext⟩ := h.text
  obtain ⟨kind', hkind', htext'⟩ := h'.text
  have htail : kind ++ (rest ++ "*/;".toList) = kind' ++ (rest' ++ "*/;".toList) := by
    have heq := htext.symm.trans htext'
    simp only [List.append_assoc, List.append_cancel_left_eq] at heq
    exact heq
  have hsame : kind = kind' := by
    rw [← takeWhile_kind hkind h.head "*/;".toList, htail, takeWhile_kind hkind' h'.head]
  subst hsame
  exact ⟨rfl, List.append_cancel_right (List.append_cancel_left htail)⟩

theorem PlaceholderText.not_selfReassign {name name' rest line : List Char}
    (h : PlaceholderText name rest line) : ¬ SelfReassign name' line := by
  rintro ⟨-, htext⟩
  obtain ⟨kind, -, htext'⟩ := h.text
  have hhead := congrArg List.head? (htext.symm.trans htext')
  simp at hhead

theorem PlaceholderText.not_globalDecl {name rest line : List Char}
    (h : PlaceholderText name rest line) : ¬ GlobalDecl line := by
  rintro ⟨tail, htext⟩
  obtain ⟨kind, -, htext'⟩ := h.text
  have hhead := congrArg List.head? (htext.symm.trans htext')
  simp at hhead

/-! ## Dropped lines -/

theorem dropPair_iff {ls : List (List Char)} {name : List Char} :
    dropPair ls name = true ↔ (∃ l ∈ ls, ∃ rest, PlaceholderText name rest l) ∧
      ∃ l ∈ ls, SelfReassign name l := by
  rw [dropPair, Bool.and_eq_true, List.contains_iff_mem, List.contains_iff_mem, closureDecls,
    selfReassigns, List.mem_filterMap, List.mem_filterMap]
  simp only [parseClosurePlaceholder_eq_some, parseGlobalSelfReassign_eq_some]

theorem dropsLine_iff {pairs : List Char → Bool} {line : List Char} :
    dropsLine pairs line = true ↔ GlobalDecl line ∨
      ∃ name, ((∃ rest, PlaceholderText name rest line) ∨ SelfReassign name line) ∧
        pairs name = true := by
  simp only [dropsLine, Bool.or_eq_true, isGlobalDecl_iff, Option.any_eq_true,
    parseClosurePlaceholder_eq_some, parseGlobalSelfReassign_eq_some, or_and_right, exists_or,
    or_assoc]

/-- The documented lines are dropped. -/
theorem HoistLine.dropsLine {ls : List (List Char)} {line : List Char} (h : HoistLine ls line) :
    dropsLine (dropPair ls) line = true := by
  refine dropsLine_iff.mpr (h.imp_right ?_)
  rintro ⟨name, hform, ⟨l, hl, rest, hplaceholder, -⟩, hself⟩
  exact ⟨name, hform.imp_left fun ⟨rest, hrest, _⟩ => ⟨rest, hrest⟩,
    dropPair_iff.mpr ⟨⟨l, hl, rest, hplaceholder⟩, hself⟩⟩

/-- Without broken placeholders among the pairs nothing else is dropped. -/
theorem hoistLine_of_dropsLine {ls : List (List Char)} {line : List Char} (hline : line ∈ ls)
    (hbroken : ∀ name, (∃ l ∈ ls, BrokenPlaceholder name l) → ∀ l ∈ ls, ¬ SelfReassign name l)
    (h : dropsLine (dropPair ls) line = true) : HoistLine ls line := by
  refine (dropsLine_iff.mp h).imp_right ?_
  rintro ⟨name, hform, hpair⟩
  obtain ⟨⟨l, hl, rest, hrest⟩, l', hl', hself⟩ := dropPair_iff.mp hpair
  have hclosed : ∀ l ∈ ls, ∀ rest, PlaceholderText name rest l → ClosurePlaceholder name l :=
    fun l hl rest hrest =>
      ⟨rest, hrest, fun hin => hbroken name ⟨l, hl, rest, hrest, hin⟩ l' hl' hself⟩
  exact ⟨name, hform.imp_left fun ⟨rest, hrest⟩ => hclosed line hline rest hrest,
    ⟨l, hl, hclosed l hl rest hrest⟩, l', hl', hself⟩

theorem mem_documentedLines {raw line : List Char} :
    line ∈ documentedLines raw ↔ line ∈ lines raw ∧ ¬ HoistLine (lines raw) line := by
  simp [documentedLines]

theorem keptLines_sublist (raw : List Char) :
    (keptLines (lines raw)).Sublist (documentedLines raw) := by
  refine List.monotone_filter_right _ fun line hline => ?_
  rw [Bool.not_eq_true'] at hline
  have hstays : ¬ HoistLine (lines raw) line := fun hhoist => by
    rw [hhoist.dropsLine] at hline
    cases hline
  simpa using hstays

theorem keptLines_eq_iff {raw : List Char} :
    keptLines (lines raw) = documentedLines raw ↔
      ∀ name, (∃ l ∈ lines raw, BrokenPlaceholder name l) →
        ∀ l ∈ lines raw, ¬ SelfReassign name l := by
  constructor
  · rintro heq name ⟨l, hl, rest, hrest, hin⟩ l' hl' hself
    have hdrops : dropsLine (dropPair (lines raw)) l = true :=
      dropsLine_iff.mpr (Or.inr ⟨name, Or.inl ⟨rest, hrest⟩,
        dropPair_iff.mpr ⟨⟨l, hl, rest, hrest⟩, l', hl', hself⟩⟩)
    have hnot : l ∉ documentedLines raw := by
      rw [← heq, keptLines, List.mem_filter]
      simp [hdrops]
    have hhoist : HoistLine (lines raw) l := by
      by_contra hno
      exact hnot (mem_documentedLines.mpr ⟨hl, hno⟩)
    rcases hhoist with hdecl | ⟨name', ⟨rest', hrest', hnone⟩ | hself', -⟩
    · exact hrest.not_globalDecl hdecl
    · rw [(hrest.unique hrest').2] at hin
      exact hnone hin
    · exact hrest.not_selfReassign hself'
  · intro hbroken
    refine List.filter_congr fun line hline => ?_
    by_cases hhoist : HoistLine (lines raw) line
    · simp [hhoist, hhoist.dropsLine]
    · have hdrops : dropsLine (dropPair (lines raw)) line = false :=
        Bool.eq_false_iff.mpr fun hdrops =>
          hhoist (hoistLine_of_dropsLine hline hbroken hdrops)
      simp [hhoist, hdrops]

/-- What was kept is kept again. -/
theorem keptLines_keptLines (ls : List (List Char)) : keptLines (keptLines ls) = keptLines ls := by
  refine List.filter_eq_self.mpr fun line hline => ?_
  have hkept := (List.mem_filter.mp hline).2
  rw [Bool.not_eq_true'] at hkept ⊢
  rw [Bool.eq_false_iff] at hkept ⊢
  refine fun hdrops => hkept (dropsLine_iff.mpr ((dropsLine_iff.mp hdrops).imp_right ?_))
  rintro ⟨name, hform, hpair⟩
  obtain ⟨⟨l, hl, hplaceholder⟩, l', hl', hself⟩ := dropPair_iff.mp hpair
  exact ⟨name, hform, dropPair_iff.mpr ⟨⟨l, List.mem_of_mem_filter hl, hplaceholder⟩, l',
    List.mem_of_mem_filter hl', hself⟩⟩

/-! ## The text that is left -/

theorem newline_notMem_keptLines {raw line : List Char} (h : line ∈ keptLines (lines raw)) :
    '\n' ∉ line :=
  newline_notMem_lines (List.mem_of_mem_filter h)

theorem stripModuleHoistPreamble_terminated {raw : List Char}
    (hraw : raw.getLast? = some '\n') :
    stripModuleHoistPreamble raw = joinLines (keptLines (lines raw)) := by
  rw [stripModuleHoistPreamble, if_neg fun h => h.1 hraw]

theorem stripModuleHoistPreamble_nil {raw : List Char} (hkept : keptLines (lines raw) = []) :
    stripModuleHoistPreamble raw = [] := by
  rw [stripModuleHoistPreamble, hkept]
  simp

theorem stripModuleHoistPreamble_open {raw last : List Char} {front : List (List Char)}
    (hraw : raw.getLast? ≠ some '\n') (hkept : keptLines (lines raw) = front ++ [last]) :
    stripModuleHoistPreamble raw = joinLines front ++ last := by
  have hjoin : joinLines (front ++ [last]) = (joinLines front ++ last) ++ ['\n'] := by simp
  rw [stripModuleHoistPreamble, hkept, hjoin, List.getLast?_concat, if_pos ⟨hraw, rfl⟩,
    List.dropLast_concat]

theorem map_stripReturn_eq {ls : List (List Char)} :
    ls.map stripReturn = ls ↔ ∀ line ∈ ls, line.getLast? ≠ some '\r' := by
  induction ls with
  | nil => simp
  | cons line rest ih =>
    rw [List.map_cons, List.cons.injEq, stripReturn_eq_self, ih, List.forall_mem_cons]

/-- No more lines are read back than were kept. -/
theorem length_lines_stripModuleHoistPreamble_le (raw : List Char) :
    (lines (stripModuleHoistPreamble raw)).length ≤ (keptLines (lines raw)).length := by
  have hnewline : ∀ line ∈ keptLines (lines raw), '\n' ∉ line := fun _ => newline_notMem_keptLines
  by_cases hraw : raw.getLast? = some '\n'
  · have hread := lines_join hnewline (List.not_mem_nil (a := '\n'))
    rw [List.append_nil] at hread
    rw [stripModuleHoistPreamble_terminated hraw, hread]
    simp
  · rcases List.eq_nil_or_concat (keptLines (lines raw)) with hkept | ⟨front, last, hkept⟩
    · rw [stripModuleHoistPreamble_nil hkept]
      exact Nat.zero_le _
    · rw [List.concat_eq_append] at hkept
      rw [hkept, List.forall_mem_append] at hnewline
      rw [stripModuleHoistPreamble_open hraw hkept,
        lines_join hnewline.1 (hnewline.2 last List.mem_cons_self), hkept]
      split <;> simp

/-- What is read back of the lines that are left. -/
theorem lines_stripModuleHoistPreamble_iff (raw : List Char) :
    lines (stripModuleHoistPreamble raw) = keptLines (lines raw) ↔
      (∀ line ∈ (if raw.getLast? = some '\n' then keptLines (lines raw)
        else (keptLines (lines raw)).dropLast), line.getLast? ≠ some '\r') ∧
      (raw.getLast? ≠ some '\n' → (keptLines (lines raw)).getLast? ≠ some []) := by
  have hnewline : ∀ line ∈ keptLines (lines raw), '\n' ∉ line := fun _ => newline_notMem_keptLines
  by_cases hraw : raw.getLast? = some '\n'
  · have hread := lines_join hnewline (List.not_mem_nil (a := '\n'))
    rw [List.append_nil, if_pos rfl, List.append_nil] at hread
    rw [stripModuleHoistPreamble_terminated hraw, hread, map_stripReturn_eq, if_pos hraw]
    exact (and_iff_left fun h => absurd hraw h).symm
  · rw [if_neg hraw]
    rcases List.eq_nil_or_concat (keptLines (lines raw)) with hkept | ⟨front, last, hkept⟩
    · rw [stripModuleHoistPreamble_nil hkept, hkept]
      simp [lines, splitLines]
    · rw [List.concat_eq_append] at hkept
      rw [hkept, List.forall_mem_append] at hnewline
      have hread := lines_join hnewline.1 (hnewline.2 last List.mem_cons_self)
      rw [stripModuleHoistPreamble_open hraw hkept, hread, hkept, List.dropLast_concat,
        List.getLast?_concat, ← map_stripReturn_eq]
      by_cases hlast : last = []
      · refine iff_of_false (fun heq => ?_) fun h => h.2 hraw (congrArg some hlast)
        have hlen := congrArg List.length heq
        simp [hlast] at hlen
      · rw [if_neg hlast, List.append_left_inj]
        exact (and_iff_left fun _ h => hlast (Option.some.inj h)).symm

/-- Where the lines are read back, the text has no line feed at its end but the input's own. -/
theorem getLast?_stripModuleHoistPreamble {raw : List Char}
    (hlines : lines (stripModuleHoistPreamble raw) = keptLines (lines raw))
    (hout : (stripModuleHoistPreamble raw).getLast? = some '\n') :
    raw.getLast? = some '\n' := by
  by_contra hraw
  have hlast := ((lines_stripModuleHoistPreamble_iff raw).mp hlines).2 hraw
  rcases List.eq_nil_or_concat (keptLines (lines raw)) with hkept | ⟨front, last, hkept⟩
  · rw [stripModuleHoistPreamble_nil hkept] at hout
    cases hout
  · rw [List.concat_eq_append] at hkept
    rw [hkept, List.getLast?_concat] at hlast
    have hne : last ≠ [] := fun h => hlast (congrArg some h)
    have hnewline : '\n' ∉ last := newline_notMem_keptLines (by rw [hkept]; simp)
    rw [stripModuleHoistPreamble_open hraw hkept, List.getLast?_append_of_ne_nil _ hne] at hout
    exact hnewline (List.mem_of_getLast? hout)

theorem stripModuleHoistPreamble_idempotent {raw : List Char}
    (hlines : lines (stripModuleHoistPreamble raw) = keptLines (lines raw)) :
    stripModuleHoistPreamble (stripModuleHoistPreamble raw) = stripModuleHoistPreamble raw := by
  have hkept : keptLines (lines (stripModuleHoistPreamble raw)) = keptLines (lines raw) := by
    rw [hlines, keptLines_keptLines]
  by_cases hout : (stripModuleHoistPreamble raw).getLast? = some '\n'
  · have hraw := getLast?_stripModuleHoistPreamble hlines hout
    rw [stripModuleHoistPreamble_terminated hout, hkept, stripModuleHoistPreamble_terminated hraw]
  · rcases List.eq_nil_or_concat (keptLines (lines raw)) with hnil | ⟨front, last, hconcat⟩
    · rw [stripModuleHoistPreamble_nil (hkept.trans hnil), stripModuleHoistPreamble_nil hnil]
    · rw [List.concat_eq_append] at hconcat
      rw [stripModuleHoistPreamble_open hout (hkept.trans hconcat)]
      by_cases hraw : raw.getLast? = some '\n'
      · rw [stripModuleHoistPreamble_terminated hraw, hconcat] at hout
        exact absurd (by simp) hout
      · exact (stripModuleHoistPreamble_open hraw hconcat).symm

/-- The pass removes the documented lines only where the kept lines are read back as they were,
and no name with a broken placeholder is reassigned. -/
theorem stripsExactly_iff (raw : List Char) : StripsExactly raw ↔ KeepsLines raw := by
  constructor
  · intro h
    have hlen := length_lines_stripModuleHoistPreamble_le raw
    rw [h.kept] at hlen
    have hkept := (keptLines_sublist raw).eq_of_length_le hlen
    have hread := (lines_stripModuleHoistPreamble_iff raw).mp (h.kept.trans hkept.symm)
    rw [hkept] at hread
    exact ⟨hread.1, hread.2, keptLines_eq_iff.mp hkept⟩
  · intro h
    have hkept := keptLines_eq_iff.mpr h.placeholders
    have hlines : lines (stripModuleHoistPreamble raw) = keptLines (lines raw) := by
      rw [lines_stripModuleHoistPreamble_iff, hkept]
      exact ⟨h.returns, h.last⟩
    exact ⟨hlines.trans hkept, getLast?_stripModuleHoistPreamble hlines,
      stripModuleHoistPreamble_idempotent hlines⟩

/-- Two empty lines in front of a declaration without a line feed at its end. -/
def openDecl : List Char := "\n\n/* global */ var x;".toList

/-- The empty line that is left last is not read back, and the text ends with a line feed. -/
theorem openDecl_not_stripsExactly : ¬ StripsExactly openDecl := by
  have hout : stripModuleHoistPreamble openDecl = ['\n'] := by decide
  intro h
  have hraw := h.newline (by rw [hout]; rfl)
  exact absurd hraw (by decide)

end Hermes.Structure
