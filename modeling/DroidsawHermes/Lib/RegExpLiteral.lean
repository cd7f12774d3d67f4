-- SUMMARY: Regular expression literals: their lexical grammar, and a reader of them.
import Mathlib.Data.List.TakeWhile
import Mathlib.Logic.Basic

/-!
# Regular expression literals

The regular expression tokens of ECMAScript, on characters: the grammar of a body,
and the reader that finds the closing slash from the left. The reader accepts
exactly the bodies of the grammar.
-/

namespace RegExpLiteral

-- ---------------------------------------------------------------------------
-- Grammar
-- ---------------------------------------------------------------------------

def isLineTerminator (c : Char) : Bool :=
  c = '\n' || c = '\r' || c = '\u2028' || c = '\u2029'

/-- `RegularExpressionClassChars`. -/
inductive ClassChars : List Char → Prop
  | nil : ClassChars []
  | plain {c cs} (hterminator : isLineTerminator c = false) (hclose : c ≠ ']') (hescape : c ≠ '\\')
    (hcs : ClassChars cs) : ClassChars (c :: cs)
  | escape {c cs} (hterminator : isLineTerminator c = false) (hcs : ClassChars cs) :
    ClassChars ('\\' :: c :: cs)

/-- `RegularExpressionChars`. -/
inductive Chars : List Char → Prop
  | nil : Chars []
  | plain {c cs} (hterminator : isLineTerminator c = false) (hescape : c ≠ '\\') (hslash : c ≠ '/')
    (hclass : c ≠ '[') (hcs : Chars cs) : Chars (c :: cs)
  | escape {c cs} (hterminator : isLineTerminator c = false) (hcs : Chars cs) :
    Chars ('\\' :: c :: cs)
  | class {cls cs} (hclass : ClassChars cls) (hcs : Chars cs) : Chars ('[' :: (cls ++ ']' :: cs))

/-- `RegularExpressionBody`: its first character is not a star. -/
structure Body (body : List Char) : Prop where
  chars : Chars body
  nonempty : body ≠ []
  first : body.head? ≠ some '*'

theorem ClassChars.not_lineTerminator {cs : List Char} (h : ClassChars cs) :
    ∀ c ∈ cs, isLineTerminator c = false := by
  induction h with
  | nil => simp
  | plain hterminator _ _ _ ih => exact List.forall_mem_cons.mpr ⟨hterminator, ih⟩
  | escape hterminator _ ih =>
    exact List.forall_mem_cons.mpr ⟨by decide, List.forall_mem_cons.mpr ⟨hterminator, ih⟩⟩

/-- A body has no line terminator. -/
theorem Chars.not_lineTerminator {cs : List Char} (h : Chars cs) :
    ∀ c ∈ cs, isLineTerminator c = false := by
  induction h with
  | nil => simp
  | plain hterminator _ _ _ _ ih => exact List.forall_mem_cons.mpr ⟨hterminator, ih⟩
  | escape hterminator _ ih =>
    exact List.forall_mem_cons.mpr ⟨by decide, List.forall_mem_cons.mpr ⟨hterminator, ih⟩⟩
  | «class» hclass _ ih =>
    refine List.forall_mem_cons.mpr ⟨by decide, List.forall_mem_append.mpr
      ⟨hclass.not_lineTerminator, List.forall_mem_cons.mpr ⟨by decide, ih⟩⟩⟩

/-- The characters of flags, as far as they are ASCII. -/
def isFlagChar (c : Char) : Bool := c.isAlphanum || c = '_' || c = '$'

-- ---------------------------------------------------------------------------
-- Reading
-- ---------------------------------------------------------------------------

/-- Whether a class is open after the character. -/
def classAfter (inClass : Bool) (c : Char) : Bool :=
  if c = '[' then true else if c = ']' then false else inClass

/-- The body up to its closing slash, and what follows the slash. -/
def readBody (inClass : Bool) : List Char → Option (List Char × List Char)
  | [] => none
  | ['\\'] => none
  | '\\' :: c :: rest =>
    if isLineTerminator c then none
    else (readBody inClass rest).map fun (body, more) => ('\\' :: c :: body, more)
  | c :: rest =>
    if isLineTerminator c then none
    else if c = '/' ∧ inClass = false then some ([], rest)
    else (readBody (classAfter inClass c) rest).map fun (body, more) => (c :: body, more)

/-- A literal at the front of a text: its body, its flags, and what follows. Two slashes
start a comment, and so do a slash and a star. -/
def readLiteral : List Char → Option (List Char × List Char × List Char)
  | '/' :: c :: rest =>
    if c = '/' ∨ c = '*' then none
    else (readBody false (c :: rest)).map fun (body, more) =>
      (body, more.takeWhile isFlagChar, more.dropWhile isFlagChar)
  | _ => none

theorem readBody_plain {c : Char} (inClass : Bool) (rest : List Char) (h : c ≠ '\\') :
    readBody inClass (c :: rest) =
      if isLineTerminator c then none
      else if c = '/' ∧ inClass = false then some ([], rest)
      else (readBody (classAfter inClass c) rest).map fun (body, more) => (c :: body, more) := by
  rw [readBody]
  · exact fun hc => absurd hc h
  · exact fun _ _ hc => absurd hc h

/-- Inside a class, the reader goes on to the bracket that closes it. -/
theorem readBody_class {cls : List Char} (h : ClassChars cls) (rest : List Char) :
    readBody true (cls ++ ']' :: rest) =
      (readBody false rest).map fun (body, more) => (cls ++ ']' :: body, more) := by
  induction h with
  | nil => simp [readBody_plain, isLineTerminator, classAfter]
  | plain hterminator hclose hescape hcs ih =>
    rw [List.cons_append, readBody_plain _ _ hescape]
    simp only [hterminator, classAfter, hclose]
    simp [ih, Function.comp_def]
  | escape hterminator hcs ih =>
    simp [readBody, hterminator, ih, Function.comp_def]

/-- The reader stops at the slash behind the characters of a body. -/
theorem readBody_chars {body : List Char} (h : Chars body) (rest : List Char) :
    readBody false (body ++ '/' :: rest) = some (body, rest) := by
  induction h with
  | nil => simp [readBody_plain, isLineTerminator]
  | plain hterminator hescape hslash hclass hcs ih =>
    rw [List.cons_append, readBody_plain _ _ hescape]
    have hafter : ∀ c : Char, c ≠ '[' → classAfter false c = false := by
      intro c hc
      simp [classAfter, hc]
    simp [hterminator, hslash, hafter _ hclass, ih]
  | escape hterminator hcs ih => simp [readBody, hterminator, ih]
  | «class» hclass hcs ih =>
    rw [List.cons_append, readBody_plain _ _ (by decide), List.append_assoc, List.cons_append]
    simp [classAfter, isLineTerminator, readBody_class hclass, ih]

/-- What the reader has passed, in a class or outside of one. -/
def Passed (inClass : Bool) (body : List Char) : Prop :=
  if inClass then ∃ cls cs, body = cls ++ ']' :: cs ∧ ClassChars cls ∧ Chars cs else Chars body

theorem Passed.escape {inClass : Bool} {c : Char} {body : List Char}
    (hterminator : isLineTerminator c = false) (h : Passed inClass body) :
    Passed inClass ('\\' :: c :: body) := by
  cases inClass with
  | false => exact Chars.escape hterminator h
  | true =>
    obtain ⟨cls, cs, rfl, hcls, hcs⟩ := h
    exact ⟨'\\' :: c :: cls, cs, rfl, ClassChars.escape hterminator hcls, hcs⟩

theorem Passed.plain {inClass : Bool} {c : Char} {body : List Char}
    (hterminator : isLineTerminator c = false) (hescape : c ≠ '\\')
    (hslash : ¬ (c = '/' ∧ inClass = false)) (h : Passed (classAfter inClass c) body) :
    Passed inClass (c :: body) := by
  by_cases hopen : c = '['
  · subst hopen
    obtain ⟨cls, cs, rfl, hcls, hcs⟩ := h
    cases inClass with
    | false => exact Chars.class hcls hcs
    | true => exact ⟨'[' :: cls, cs, rfl, .plain hterminator (by decide) hescape hcls, hcs⟩
  · cases inClass with
    | false =>
      have hchars : Chars body := by simpa [Passed, classAfter, hopen] using h
      exact Chars.plain hterminator hescape (fun hc => hslash ⟨hc, rfl⟩) hopen hchars
    | true =>
      by_cases hclose : c = ']'
      · subst hclose
        exact ⟨[], body, rfl, .nil, h⟩
      · have hpassed : Passed true body := by simpa [classAfter, hopen, hclose] using h
        obtain ⟨cls, cs, rfl, hcls, hcs⟩ := hpassed
        exact ⟨c :: cls, cs, rfl, .plain hterminator hclose hescape hcls, hcs⟩

theorem passed_of_readBody {inClass : Bool} {text body rest : List Char}
    (h : readBody inClass text = some (body, rest)) :
    text = body ++ '/' :: rest ∧ Passed inClass body := by
  fun_induction readBody inClass text generalizing body with
  | case1 => cases h
  | case2 => cases h
  | case3 => cases h
  | case4 inClass c more hterminator ih =>
    obtain ⟨⟨body', rest'⟩, hread, hpair⟩ := Option.map_eq_some_iff.mp h
    cases hpair
    obtain ⟨htext, hpassed⟩ := ih hread
    exact ⟨by rw [htext]; rfl, hpassed.escape (by simpa using hterminator)⟩
  | case5 => cases h
  | case6 inClass c more _ _ _ hclose =>
    cases h
    obtain ⟨rfl, rfl⟩ := hclose
    exact ⟨rfl, .nil⟩
  | case7 inClass c more hlone hpair hterminator hslash ih =>
    obtain ⟨⟨body', rest'⟩, hread, hpair'⟩ := Option.map_eq_some_iff.mp h
    cases hpair'
    obtain ⟨htext, hpassed⟩ := ih hread
    have hescape : c ≠ '\\' := by
      intro hc
      cases more with
      | nil => exact hlone hc rfl
      | cons d more => exact hpair d more hc rfl
    exact ⟨by rw [htext]; rfl, hpassed.plain (by simpa using hterminator) hescape hslash⟩

/-- The reader finds exactly the bodies of the grammar. -/
theorem readBody_eq_some {text body rest : List Char} :
    readBody false text = some (body, rest) ↔ text = body ++ '/' :: rest ∧ Chars body := by
  constructor
  · exact passed_of_readBody
  · rintro ⟨rfl, hchars⟩
    exact readBody_chars hchars rest

theorem Chars.head?_ne_slash {body : List Char} (h : Chars body) : body.head? ≠ some '/' := by
  cases h with
  | nil => simp
  | plain _ _ hslash => simpa using hslash
  | escape => simp
  | «class» => simp

/-- A text is one literal: a slash, a body, a slash and flags. -/
theorem readLiteral_eq_some {text body flags : List Char} :
    readLiteral text = some (body, flags, []) ↔
      text = '/' :: (body ++ '/' :: flags) ∧ Body body ∧ ∀ c ∈ flags, isFlagChar c = true := by
  constructor
  · intro h
    unfold readLiteral at h
    split at h
    · next c rest =>
      split at h
      · cases h
      · next hfirst =>
        obtain ⟨⟨body', more⟩, hread, hparts⟩ := Option.map_eq_some_iff.mp h
        simp only [Prod.mk.injEq] at hparts
        obtain ⟨rfl, htake, hdrop⟩ := hparts
        have hall := List.dropWhile_eq_nil_iff.mp hdrop
        rw [List.takeWhile_eq_self_iff.mpr hall] at htake
        subst htake
        obtain ⟨htext, hchars⟩ := readBody_eq_some.mp hread
        refine ⟨by rw [htext], ⟨hchars, ?_, ?_⟩, hall⟩
        · rintro rfl
          exact hfirst (.inl (List.cons.inj htext).1)
        · intro hstar
          obtain ⟨body, rfl⟩ := List.head?_eq_some_iff.mp hstar
          exact hfirst (.inr (List.cons.inj htext).1)
    · cases h
  · rintro ⟨rfl, ⟨hchars, hnonempty, hfirst⟩, hflags⟩
    obtain ⟨c, body', rfl⟩ := List.exists_cons_of_ne_nil hnonempty
    have hslash := hchars.head?_ne_slash
    have hnot : ¬ (c = '/' ∨ c = '*') := by
      rintro (rfl | rfl)
      · exact hslash rfl
      · exact hfirst rfl
    have hread := readBody_chars hchars flags
    rw [List.cons_append] at hread ⊢
    rw [readLiteral, if_neg hnot, hread]
    simp [List.takeWhile_eq_self_iff.mpr hflags, List.dropWhile_eq_nil_iff.mpr hflags]

end RegExpLiteral
