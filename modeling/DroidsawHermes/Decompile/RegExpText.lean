-- SUMMARY: When a printed regular expression is one literal token, and what its body then reads.
import DroidsawHermes.Decompile.Expr
import DroidsawHermes.Lib.RegExpLiteral

/-!
# Regular expression literals

`Display` of `Expr::RegExp` copies escapes and classes as they are. Its text is one
literal exactly when the pattern ends every escape and every class that it starts.
-/

namespace Hermes.Decompile

open RegExpLiteral

/-! ## Patterns -/

/-- The escapes of a pattern have their character, which ends no line, and its classes
are closed. -/
def endsWhatItStarts (inClass : Bool) : List Char → Bool
  | [] => !inClass
  | ['\\'] => false
  | '\\' :: c :: chars => !isLineTerminator c && endsWhatItStarts inClass chars
  | c :: chars => endsWhatItStarts (classAfter inClass c) chars

/-- What `safePattern` prints for one character outside of escapes. -/
def safePatternChar (c : Char) : List Char :=
  if c = '/' then ['\\', '/'] else if isLineTerminator c then ['\\', 'n'] else [c]

theorem safePattern_plain {c : Char} (chars : List Char) (h : c ≠ '\\') :
    safePattern (c :: chars) = safePatternChar c ++ safePattern chars := by
  by_cases hslash : c = '/'
  · subst hslash
    rfl
  · by_cases hterminator : isLineTerminator c = true
    · have hcases : c = '\n' ∨ c = '\r' ∨ c = '\u2028' ∨ c = '\u2029' := by
        simpa [isLineTerminator, or_assoc] using hterminator
      rcases hcases with rfl | rfl | rfl | rfl <;> rfl
    · simp only [isLineTerminator, Bool.or_eq_true, decide_eq_true_eq, not_or] at hterminator
      obtain ⟨⟨⟨hn, hr⟩, hls⟩, hps⟩ := hterminator
      rw [safePattern]
      · simp [safePatternChar, hslash, isLineTerminator, hn, hr, hls, hps]
      all_goals simp_all

/-- A character prints as one that leaves the class as it was, or as itself. -/
theorem readBody_safePatternChar (inClass : Bool) {c : Char} (h : c ≠ '\\') (text : List Char) :
    readBody inClass (safePatternChar c ++ text) =
      (readBody (classAfter inClass c) text).map fun (body, more) =>
        (safePatternChar c ++ body, more) := by
  by_cases hslash : c = '/'
  · subst hslash
    have hafter : classAfter inClass '/' = inClass := by simp [classAfter]
    simp [safePatternChar, readBody, isLineTerminator, hafter]
  · by_cases hterminator : isLineTerminator c = true
    · have hafter : classAfter inClass c = inClass := by
        have hopen : c ≠ '[' := by
          rintro rfl
          exact absurd hterminator (by decide)
        have hclose : c ≠ ']' := by
          rintro rfl
          exact absurd hterminator (by decide)
        simp [classAfter, hopen, hclose]
      have hn : isLineTerminator 'n' = false := by decide
      simp [safePatternChar, hslash, hterminator, readBody, hafter, hn]
    · simp [safePatternChar, hslash, hterminator, readBody_plain _ _ h]

/-- The closing slash is found behind the printed pattern exactly when the pattern ends
what it starts. -/
theorem readBody_safePattern (inClass : Bool) (chars flags : List Char) :
    readBody inClass (safePattern chars ++ '/' :: flags) = some (safePattern chars, flags) ↔
      endsWhatItStarts inClass chars = true := by
  fun_induction endsWhatItStarts inClass chars with
  | case1 inClass =>
    cases inClass with
    | false => simp [safePattern, readBody_plain, isLineTerminator]
    | true => simp [safePattern, readBody_plain, isLineTerminator]
  | case2 inClass => simp [safePattern, readBody, isLineTerminator]
  | case3 inClass c chars ih =>
    by_cases hterminator : isLineTerminator c = true
    · simp [safePattern, readBody, hterminator]
    · simp [safePattern, readBody, hterminator, ← ih, Option.map_eq_some_iff]
  | case4 inClass c chars hlone hpair ih =>
    have hescape : c ≠ '\\' := by
      intro hc
      cases chars with
      | nil => exact hlone hc rfl
      | cons d chars => exact hpair d chars hc rfl
    rw [safePattern_plain chars hescape, List.append_assoc, readBody_safePatternChar inClass hescape,
      ← ih]
    simp [Option.map_eq_some_iff]

/-! ## Bodies -/

/-- A class ends at its bracket. -/
theorem endsWhatItStarts_class {cls : List Char} (h : ClassChars cls) (chars : List Char) :
    endsWhatItStarts true (cls ++ ']' :: chars) = endsWhatItStarts false chars := by
  induction h with
  | nil => simp [endsWhatItStarts, classAfter]
  | @plain c cs hterminator hclose hescape _ ih =>
    have hafter : classAfter true c = true := by simp [classAfter, hclose]
    rw [List.cons_append, endsWhatItStarts, hafter, ih]
    · exact fun hc => absurd hc hescape
    · exact fun _ _ hc => absurd hc hescape
  | escape hterminator _ ih => simp [endsWhatItStarts, hterminator, ih]

/-- A body ends what it starts. -/
theorem endsWhatItStarts_chars {chars : List Char} (h : Chars chars) :
    endsWhatItStarts false chars = true := by
  induction h with
  | nil => rfl
  | @plain c cs hterminator hescape hslash hclass _ ih =>
    have hafter : classAfter false c = false := by simp [classAfter, hclass]
    rw [endsWhatItStarts, hafter, ih]
    · exact fun hc => absurd hc hescape
    · exact fun _ _ hc => absurd hc hescape
  | escape hterminator _ ih => simp [endsWhatItStarts, hterminator, ih]
  | «class» hclass _ ih =>
    rw [endsWhatItStarts]
    · simp [classAfter, endsWhatItStarts_class hclass, ih]
    all_goals simp

/-- `body` is `pattern` with a backslash put before some of its slashes. -/
inductive SlashesEscaped : List Char → List Char → Prop
  | nil : SlashesEscaped [] []
  | keep {c pattern body} (h : SlashesEscaped pattern body) :
    SlashesEscaped (c :: pattern) (c :: body)
  | slash {pattern body} (h : SlashesEscaped pattern body) :
    SlashesEscaped ('/' :: pattern) ('\\' :: '/' :: body)

theorem slashesEscaped_safePattern {chars : List Char}
    (h : ∀ c ∈ chars, isLineTerminator c = false) : SlashesEscaped chars (safePattern chars) := by
  fun_induction safePattern chars with
  | case1 esc chars ih =>
    simp only [List.forall_mem_cons] at h
    exact .keep (.keep (ih h.2.2))
  | case2 chars ih => exact .slash (ih (List.forall_mem_cons.mp h).2)
  | case3 chars ih => exact absurd (List.forall_mem_cons.mp h).1 (by decide)
  | case4 chars ih => exact absurd (List.forall_mem_cons.mp h).1 (by decide)
  | case5 chars ih => exact absurd (List.forall_mem_cons.mp h).1 (by decide)
  | case6 chars ih => exact absurd (List.forall_mem_cons.mp h).1 (by decide)
  | case7 c chars _ _ _ _ _ _ ih => exact .keep (ih (List.forall_mem_cons.mp h).2)
  | case8 => exact .nil

/-- The first character stays what it is, as far as a star is concerned. -/
theorem head?_safePattern (chars : List Char) :
    (safePattern chars = [] ↔ chars = []) ∧
      ((safePattern chars).head? = some '*' ↔ chars.head? = some '*') := by
  fun_cases safePattern chars <;> simp_all

/-! ## Text -/

/-- The text of a regular expression is one literal, which ends at the slash written
behind the pattern. A pattern that is a body is read back, up to escaped slashes. -/
structure PrintsOneLiteral (doubleText : UInt64 → String) (pattern flags : String) : Prop where
  token : readLiteral ((Expr.regExp pattern flags).display doubleText).toList =
    some (safePattern pattern.toList, safeFlags flags.toList, [])
  readBack : Body pattern.toList → ∃ body, SlashesEscaped pattern.toList body ∧
    readLiteral ((Expr.regExp pattern flags).display doubleText).toList =
      some (body, safeFlags flags.toList, [])

theorem toList_display_regExp (doubleText : UInt64 → String) (pattern flags : String) :
    ((Expr.regExp pattern flags).display doubleText).toList =
      '/' :: (safePattern pattern.toList ++ '/' :: safeFlags flags.toList) := by
  simp [Expr.display, regExpText]

theorem isFlagChar_of_mem_safeFlags {flags : List Char} :
    ∀ c ∈ safeFlags flags, isFlagChar c = true := by
  intro c hc
  have hmem := (List.mem_filter.mp hc).2
  have hflag : c ∈ ['d', 'g', 'i', 'm', 's', 'u', 'y'] := List.contains_iff_mem.mp hmem
  simp only [List.mem_cons, List.not_mem_nil, or_false] at hflag
  rcases hflag with rfl | rfl | rfl | rfl | rfl | rfl | rfl <;> rfl

section

variable (doubleText : UInt64 → String) (pattern flags : String)

theorem readLiteral_display_regExp :
    readLiteral ((Expr.regExp pattern flags).display doubleText).toList =
      some (safePattern pattern.toList, safeFlags flags.toList, []) ↔
      pattern.toList ≠ [] ∧ pattern.toList.head? ≠ some '*' ∧
        endsWhatItStarts false pattern.toList = true := by
  have hchars : Chars (safePattern pattern.toList) ↔
      endsWhatItStarts false pattern.toList = true := by
    rw [← readBody_safePattern false pattern.toList [], readBody_eq_some]
    simp
  have hempty := not_congr (head?_safePattern pattern.toList).1
  have hstar := not_congr (head?_safePattern pattern.toList).2
  rw [readLiteral_eq_some, toList_display_regExp]
  constructor
  · rintro ⟨-, ⟨hbody, hnonempty, hfirst⟩, -⟩
    exact ⟨hempty.mp hnonempty, hstar.mp hfirst, hchars.mp hbody⟩
  · rintro ⟨hnonempty, hfirst, hends⟩
    exact ⟨rfl, ⟨hchars.mpr hends, hempty.mpr hnonempty, hstar.mpr hfirst⟩,
      isFlagChar_of_mem_safeFlags⟩

/-- A body is always read back. -/
theorem readBack_of_body (h : Body pattern.toList) :
    ∃ body, SlashesEscaped pattern.toList body ∧
      readLiteral ((Expr.regExp pattern flags).display doubleText).toList =
        some (body, safeFlags flags.toList, []) :=
  ⟨safePattern pattern.toList, slashesEscaped_safePattern h.chars.not_lineTerminator,
    (readLiteral_display_regExp doubleText pattern flags).mpr
      ⟨h.nonempty, h.first, endsWhatItStarts_chars h.chars⟩⟩

/-- A pattern prints as one literal exactly when it is not empty, does not start with a
star, and ends its escapes and its classes. -/
theorem printsOneLiteral_iff :
    PrintsOneLiteral doubleText pattern flags ↔
      pattern.toList ≠ [] ∧ pattern.toList.head? ≠ some '*' ∧
        endsWhatItStarts false pattern.toList = true := by
  rw [← readLiteral_display_regExp doubleText pattern flags]
  exact ⟨PrintsOneLiteral.token, fun h => ⟨h, readBack_of_body doubleText pattern flags⟩⟩

end

/-- The backslash takes the line feed behind it into the text. -/
theorem escaped_newline_not_printsOneLiteral :
    ((Expr.regExp "a\\\n" "g").display fun _ => "").toList = ['/', 'a', '\\', '\n', '/', 'g'] ∧
      ¬ PrintsOneLiteral (fun _ => "") "a\\\n" "g" := by
  constructor
  · rw [toList_display_regExp]
    rfl
  · intro h
    obtain ⟨-, -, hends⟩ := (readLiteral_display_regExp _ _ _).mp h.token
    exact absurd hends (by decide)

end Hermes.Decompile
