-- SUMMARY: Printed tagged templates lex as one template literal, whatever their chunks hold.
import DroidsawHermes.Decompile.Expr
import DroidsawHermes.Lib.Template

/-!
# Tagged templates

`escape_template_raw_chunk` makes every chunk closed, so what `Display` prints for
a tagged template has exactly the chunks and the substitutions it was made of.
-/

namespace Hermes.Decompile

open Template

/-! ## Chunks -/

/-- The escaper copies a character that neither ends a chunk nor starts an escape. -/
theorem escapeTemplateRawChars_plain {c : Char} {rest : List Char} (hclose : c ≠ '`')
    (hpair : c ≠ '\\') (hhole : c = '$' → rest.head? ≠ some '{') :
    escapeTemplateRawChars (c :: rest) = c :: escapeTemplateRawChars rest := by
  rw [escapeTemplateRawChars]
  · exact fun _ _ h => absurd h hpair
  · exact fun h => absurd h hpair
  · exact hclose
  · rintro more hdollar rfl
    exact hhole hdollar rfl

/-- Escaping makes no brace at the front. -/
theorem head?_escapeTemplateRawChars {s : List Char} (h : s.head? ≠ some '{') :
    (escapeTemplateRawChars s).head? ≠ some '{' := by
  induction s using escapeTemplateRawChars.induct with
  | case5 c s hpair hlone hclose hhole =>
    simpa [escapeTemplateRawChars] using h
  | _ => simp_all [escapeTemplateRawChars]

theorem closed_escapeTemplateRawChars (s : List Char) :
    closed (escapeTemplateRawChars s) = true := by
  induction s using escapeTemplateRawChars.induct with
  | case1 next s ih => simpa [escapeTemplateRawChars, closed] using ih
  | case2 => rfl
  | case3 s ih => simpa [escapeTemplateRawChars, closed] using ih
  | case4 s ih =>
    rw [escapeTemplateRawChars, closed, closed_plain (by decide) (by decide) (by simp), ih]
  | case5 c s hpair hlone hclose hhole ih =>
    have hplain := ne_of_cases hlone hpair
    have hhead := head?_ne_of_cases hhole
    rw [escapeTemplateRawChars_plain hclose hplain hhead,
      closed_plain hclose hplain fun hc => head?_escapeTemplateRawChars (hhead hc), ih]
  | case6 => rfl

theorem escapeTemplateRawChars_of_closed {s : List Char} (h : closed s = true) :
    escapeTemplateRawChars s = s := by
  induction s using escapeTemplateRawChars.induct with
  | case1 next s ih =>
    rw [closed] at h
    rw [escapeTemplateRawChars, ih h]
  | case2 => exact absurd h (by decide)
  | case3 s ih => exact absurd h (by simp [closed])
  | case4 s ih => exact absurd h (by simp [closed])
  | case5 c s hpair hlone hclose hhole ih =>
    have hplain := ne_of_cases hlone hpair
    have hhead := head?_ne_of_cases hhole
    rw [closed_plain hclose hplain hhead] at h
    rw [escapeTemplateRawChars_plain hclose hplain hhead, ih h]
  | case6 => rfl

/-- The closed chunks are those that the escaper leaves alone. -/
theorem escapeTemplateRawChars_eq_self (s : List Char) :
    escapeTemplateRawChars s = s ↔ closed s = true :=
  ⟨fun h => h ▸ closed_escapeTemplateRawChars s, escapeTemplateRawChars_of_closed⟩

@[simp] theorem toList_escapeTemplateRawChunk (s : String) :
    (escapeTemplateRawChunk s).toList = escapeTemplateRawChars s.toList := by
  simp [escapeTemplateRawChunk]

theorem escapeTemplateRawChunk_eq_self (s : String) :
    escapeTemplateRawChunk s = s ↔ closed s.toList = true := by
  rw [← escapeTemplateRawChars_eq_self, ← toList_escapeTemplateRawChunk, String.toList_inj]

/-! ## Literals -/

theorem displayAll_eq_map (doubleText : UInt64 → String) (es : List Expr) :
    displayAll doubleText es = es.map (Expr.display doubleText) := by
  induction es with
  | nil => simp [displayAll]
  | cons e es ih => simp [displayAll, ih]

/-- The printed chunks and substitutions, as they are assembled. -/
theorem templateBody_assemble (chunk : String) {chunks subs : List String}
    (h : chunks.length = subs.length) :
    (templateBody (chunk :: chunks) subs).toList ++ ['`'] =
      assemble (escapeTemplateRawChars chunk.toList)
        ((subs.map String.toList).zip (chunks.map fun c => escapeTemplateRawChars c.toList)) := by
  induction chunks generalizing chunk subs with
  | nil =>
    obtain rfl := List.length_eq_zero_iff.mp h.symm
    simp [templateBody, assemble]
  | cons next chunks ih =>
    cases subs with
    | nil => simp at h
    | cons sub subs =>
      have hrest := @ih next subs (by simpa using h)
      simp only [templateBody, String.toList_append, toList_escapeTemplateRawChunk,
        List.append_assoc, hrest]
      simp [assemble]

/-- The tag of a printed template. -/
def Expr.tagText (doubleText : UInt64 → String) (tag : Expr) : String :=
  if tag.tagNeedsParens then "(" ++ tag.display doubleText ++ ")" else tag.display doubleText

/-- What stands behind the opening backtick. -/
def templateLiteral (doubleText : UInt64 → String) (raw : List String) (subs : List Expr) :
    List Char :=
  (templateBody raw (subs.map (Expr.display doubleText))).toList ++ ['`']

section

variable {doubleText : UInt64 → String} {raw : List String} {subs : List Expr}
  (hlength : raw.length = subs.length + 1)

include hlength

theorem display_taggedTemplate (tag : Expr) (cooked : List String) :
    ((Expr.taggedTemplate tag cooked raw subs).display doubleText).toList =
      (tag.tagText doubleText).toList ++ '`' :: templateLiteral doubleText raw subs := by
  have hnot : ¬ raw.length ≠ (subs.map (Expr.display doubleText)).length + 1 := by simpa using hlength
  simp only [Expr.display, displayAll_eq_map, taggedTemplateText, if_neg hnot, Expr.tagText,
    templateLiteral, String.toList_append]
  simp

/-- The literal is read back, whatever follows it. -/
theorem lexes_templateLiteral {readHole : List Char → Option (List Char × List Char)}
    (hsubs : ∀ sub ∈ subs, Balanced readHole (sub.display doubleText).toList) (rest : List Char) :
    Lexes readHole (templateLiteral doubleText raw subs ++ rest)
      (raw.map fun chunk => (escapeTemplateRawChunk chunk).toList)
      (subs.map fun sub => (sub.display doubleText).toList) rest := by
  obtain ⟨chunk, chunks, rfl⟩ := List.exists_cons_of_length_eq_add_one hlength
  have hchunks : chunks.length = subs.length := by simpa using hlength
  have hparts : ∀ p ∈ ((subs.map (Expr.display doubleText)).map String.toList).zip
      (chunks.map fun c => escapeTemplateRawChars c.toList),
      Balanced readHole p.1 ∧ closed p.2 = true := by
    rintro ⟨hole, next⟩ hp
    obtain ⟨hhole, hnext⟩ := List.of_mem_zip hp
    simp only [List.map_map, List.mem_map, Function.comp_apply] at hhole hnext
    obtain ⟨sub, hsub, rfl⟩ := hhole
    obtain ⟨c, -, rfl⟩ := hnext
    exact ⟨hsubs sub hsub, closed_escapeTemplateRawChars _⟩
  have hlexes := lexes_assemble (closed_escapeTemplateRawChars chunk.toList) hparts rest
  rw [List.map_fst_zip (by simp [hchunks]), List.map_snd_zip (by simp [hchunks])] at hlexes
  rw [templateLiteral, templateBody_assemble chunk (by simpa using hchunks)]
  simpa [Function.comp_def] using hlexes

end

/-- Escaped chunks are closed, closed chunks are left alone, and a printed tagged
template is one literal with the substitutions it was made of. -/
theorem template_chunks_stay_inside {doubleText : UInt64 → String}
    {readHole : List Char → Option (List Char × List Char)} {raw : List String} {subs : List Expr}
    (hlength : raw.length = subs.length + 1)
    (hsubs : ∀ sub ∈ subs, Balanced readHole (sub.display doubleText).toList) :
    (∀ s, closed (escapeTemplateRawChunk s).toList = true) ∧
      (∀ s, escapeTemplateRawChunk s = s ↔ closed s.toList = true) ∧
      (∀ s, escapeTemplateRawChunk (escapeTemplateRawChunk s) = escapeTemplateRawChunk s) ∧
      ∀ tag cooked, ∃ literal,
        ((Expr.taggedTemplate tag cooked raw subs).display doubleText).toList =
          (tag.tagText doubleText).toList ++ '`' :: literal ∧
        ∀ rest chunks holes rest', Lexes readHole (literal ++ rest) chunks holes rest' ↔
          chunks = (raw.map fun chunk => (escapeTemplateRawChunk chunk).toList) ∧
          holes = (subs.map fun sub => (sub.display doubleText).toList) ∧ rest' = rest := by
  have hclosed : ∀ s, closed (escapeTemplateRawChunk s).toList = true := fun s => by
    rw [toList_escapeTemplateRawChunk]
    exact closed_escapeTemplateRawChars s.toList
  refine ⟨hclosed, escapeTemplateRawChunk_eq_self,
    fun s => (escapeTemplateRawChunk_eq_self _).mpr (hclosed s), fun tag cooked =>
    ⟨templateLiteral doubleText raw subs, display_taggedTemplate hlength tag cooked, ?_⟩⟩
  intro rest chunks holes rest'
  have hlexes := lexes_templateLiteral hlength hsubs rest
  constructor
  · exact hlexes.unique
  · rintro ⟨rfl, rfl, rfl⟩
    exact hlexes

/-- Three chunks with a hazard each, around an empty object and `this`. -/
theorem template_chunks_stay_inside_sample : ∃ literal,
    ((Expr.taggedTemplate (.globalIdent "tag") [] ["cost $", "\x60", "$\x7bx\x7d\\"]
      [.objectLit [], .this]).display fun _ => "").toList =
      ((Expr.globalIdent "tag").tagText fun _ => "").toList ++ '`' :: literal ∧
    ∀ rest chunks holes rest', Lexes (readBraces 0) (literal ++ rest) chunks holes rest' ↔
      chunks = ["cost $".toList, "\\\x60".toList, "\\$\x7bx\x7d\\\\".toList] ∧
      holes = ["\x7b  \x7d".toList, "this".toList] ∧ rest' = rest := by
  have hsubs : ∀ sub ∈ [Expr.objectLit [], .this],
      Balanced (readBraces 0) (sub.display fun _ => "").toList := by
    intro sub hsub
    simp only [List.mem_cons, List.not_mem_nil, or_false] at hsub
    rcases hsub with rfl | rfl
    · intro rest
      simp [Expr.display, displayEntries, joinComma, readBraces]
    · intro rest
      simp [Expr.display, readBraces]
  obtain ⟨-, -, -, hlexes⟩ := @template_chunks_stay_inside (fun _ => "")
    (readBraces 0) ["cost $", "\x60", "$\x7bx\x7d\\"] [.objectLit [], .this] rfl hsubs
  obtain ⟨literal, hdisplay, hread⟩ := hlexes (.globalIdent "tag") []
  refine ⟨literal, hdisplay, fun rest chunks holes rest' => ?_⟩
  simpa [escapeTemplateRawChars, Expr.display, displayEntries, joinComma] using
    hread rest chunks holes rest'

end Hermes.Decompile
