-- SUMMARY: Where string constants are printed, and which strings the printed token still denotes.
import DroidsawHermes.Decompile.Expr
import DroidsawHermes.Lib.StringLiteral

/-!
# String constants

The printers of string constants, with the whole-text replacements that run over
their output: `resolve_var` and the sanitising of `Expr::Raw`. Each printer loses
exactly the strings that its condition leaves out.
-/

namespace Hermes.Structure

open Decompile StringLiteral

/-! ## Printers -/

def escapePropChar : Char → List Char
  | '\\' => ['\\', '\\']
  | '"' => ['\\', '"']
  | '\n' => ['\\', 'n']
  | '\r' => ['\\', 'r']
  | '\t' => ['\\', 't']
  | c => [c]

/-- Five `replace` calls, the one for the backslash first. -/
def escapeProp (s : String) : String := String.ofList (s.toList.flatMap escapePropChar)

def fmtPropAccess (obj prop : String) : String :=
  if isValidJsIdent prop then obj ++ "." ++ prop else obj ++ "[\"" ++ escapeProp prop ++ "\"]"

def fmtPropKey (prop : String) : String :=
  if isValidJsIdent prop then prop else "\"" ++ escapeProp prop ++ "\""

/-- A value of a literal buffer, by its tag. `fmtDouble` is `fmt_js_double`. -/
def bufferItem (getStr : Nat → String) (fmtDouble : UInt64 → String) (tag strId : Nat) (ival : Int)
    (dval : UInt64) : String :=
  match tag with
  | 0 => "null"
  | 1 => "true"
  | 2 => "false"
  | 3 => fmtDouble dval
  | 4 => "\"" ++ escapeJsString (getStr strId) ++ "\""
  | 5 => "undefined"
  | 6 => toString ival
  | _ => "/* invalid literal tag */"

def escapeBufferKeyChar : Char → List Char
  | '\\' => ['\\', '\\']
  | '"' => ['\\', '"']
  | c => [c]

/-- The key of entry `i` of an object that is decoded from a buffer. -/
def bufferKey (getStr : Nat → String) (i tag strId : Nat) : String :=
  if tag = 4 then
    let k := getStr strId
    if k = "" ∨ startsWith k "<" then "_" ++ Nat.repr i
    else if isValidJsIdent k then k
    else "\"" ++ String.ofList (k.toList.flatMap escapeBufferKeyChar) ++ "\""
  else "key" ++ Nat.repr i

/-- The operand that `resolve_buffers` gives an array, which prints as `Expr::Raw`. -/
def arrayContent (items : List String) : String := "[" ++ joinComma items ++ "]"

def objectContent (props : List (String × String)) : String :=
  "\x7b " ++ joinComma (props.map fun p => p.1 ++ ": " ++ p.2) ++ " \x7d"

/-- The label of a case, as the emitter resolves it. -/
def caseLabel (getStr : Nat → String) (resolve : String → String) (val : String) : String :=
  if startsWith val "__str_case_" then
    match (String.ofList (val.toList.drop 11)).toNat? with
    | some strId => "\"" ++ getStr strId ++ "\""
    | none => resolve val
  else resolve val

/-- The label of a case of a string switch. -/
def stringCase (strId : Nat) : String := "__str_case_" ++ Nat.repr strId

/-! ## Replacements -/

/-- `Display` of `Expr::Raw`, away from `globalThis.` at the front. -/
def sanitizeRaw (text : String) : String := String.ofList (text.toList.map rawChar)

/-- What runs over a printed literal: nothing, `resolve_var`, or `Display` of `Expr::Raw`. -/
inductive Post where
  | none
  | resolved
  | raw
  deriving DecidableEq, Repr

def Post.apply : Post → String → String
  | .none => id
  | .resolved => replaceQuestionMarks
  | .raw => rawText

/-- Whether `resolve_var` runs. -/
def Post.ofResolved (resolved : Bool) : Post := if resolved then .resolved else .none

def Post.char : Post → Char → Char
  | .none => id
  | .resolved => fun c => if c = '?' then '_' else c
  | .raw => rawChar

theorem startsWith_false_of_head {text p : String} {c d : Char} (htext : text.toList.head? = some c)
    (hp : p.toList.head? = some d) (hne : c ≠ d) : startsWith text p = false := by
  obtain ⟨text', htext'⟩ := List.head?_eq_some_iff.mp htext
  obtain ⟨p', hp'⟩ := List.head?_eq_some_iff.mp hp
  simpa [startsWith, htext', hp', List.isPrefixOf] using fun h => absurd h hne.symm

/-- A text that a quote or a bracket opens is only sanitised. -/
theorem rawText_eq_sanitizeRaw {text : String} {c : Char} (htext : text.toList.head? = some c)
    (hc : c = '"' ∨ c = '[' ∨ c = '{') : rawText text = sanitizeRaw text := by
  have hhead : (sanitizeRaw text).toList.head? = some c := by
    rcases hc with rfl | rfl | rfl <;> simp [sanitizeRaw, htext, rawChar]
  have hglobal : "globalThis.".toList.head? = some 'g' := rfl
  have hne : c ≠ 'g' := by
    rcases hc with rfl | rfl | rfl <;> decide
  have hprefix := startsWith_false_of_head hhead hglobal hne
  simp only [sanitizeRaw] at hprefix ⊢
  simp [rawText, hprefix]

theorem toList_apply_post (post : Post) {text : String} (h : text.toList.head? = some '"') :
    (post.apply text).toList = text.toList.map post.char := by
  cases post with
  | none => simp [Post.apply, Post.char]
  | resolved => simp [Post.apply, Post.char, replaceQuestionMarks]
  | raw => simp [Post.apply, Post.char, rawText_eq_sanitizeRaw h (.inl rfl), sanitizeRaw]

theorem caseLabel_stringCase (getStr : Nat → String) (resolve : String → String) (strId : Nat) :
    caseLabel getStr resolve (stringCase strId) = "\"" ++ getStr strId ++ "\"" := by
  have hstart : startsWith (stringCase strId) "__str_case_" = true := by
    simp [startsWith, stringCase]
  have hdrop : String.ofList ((stringCase strId).toList.drop 11) = Nat.repr strId := by
    simp [stringCase, Nat.repr]
  rw [caseLabel, if_pos hstart, hdrop, Nat.toNat?_repr]

/-! ## Positions -/

/-- Where a string constant is printed. The accessor key of an `Object.defineProperty` under `Raw`,
the method name of a `MethodCall` and the names of class members have no position here. -/
inductive Position where
  /-- A `Literal::String`; under `Expr::Raw` when it is thrown. -/
  | literal (post : Post)
  /-- The property of an `Expr::Member`; of the global object, without its qualifier. -/
  | member (ofGlobal resolved : Bool)
  | objectKey (resolved : Bool)
  | propAccess
  /-- A destructuring key. -/
  | propKey
  | bufferValue
  | bufferKey (index : Nat)
  /-- A string constant that was propagated into an object literal folded from a buffer:
  the fold prints every string operand as a token of the buffer. -/
  | foldedValue
  | caseLabel
  deriving DecidableEq, Repr

section

variable (doubleText : UInt64 → String)

/-- The token, as it is printed: for a property, what stands behind the object. -/
def Position.text (s : String) : Position → String
  | .literal post => post.apply ((Decompile.Literal.string s).display doubleText)
  | .member ofGlobal resolved =>
    (Post.ofResolved resolved).apply (memberText ofGlobal "" s)
  | .objectKey resolved => (Post.ofResolved resolved).apply (keyText s)
  | .propAccess => fmtPropAccess "" s
  | .propKey => fmtPropKey s
  | .bufferValue => sanitizeRaw (bufferItem (fun _ => s) doubleText 4 0 0 0)
  | .bufferKey index => sanitizeRaw (Structure.bufferKey (fun _ => s) index 4 0)
  | .foldedValue => rawText s
  | .caseLabel => Structure.caseLabel (fun _ => s) id (stringCase 0)

end

/-- An ASCII identifier name. -/
def isIdentifierName : List Char → Bool
  | [] => false
  | first :: chars =>
    (first.isAlpha || first = '_' || first = '$')
      && chars.all fun c => c.isAlphanum || c = '_' || c = '$'

/-- A text that is a string literal. -/
def readLiteral : List Char → Option (List Nat)
  | [] => none
  | quote :: text =>
    if quote = '"' ∨ quote = '\'' then
      match readString quote text with
      | some (units, []) => some units
      | _ => none
    else none

/-- A text that is the name of a property: an identifier name or a string literal. -/
def readKey (text : List Char) : Option (List Nat) :=
  if isIdentifierName text then some (value text) else readLiteral text

/-- A text that accesses a property: of the object in front of it, or of the global object. -/
def readAccess : List Char → Option (List Nat)
  | '.' :: name => if isIdentifierName name then some (value name) else none
  | '[' :: text => if text.getLast? = some ']' then readLiteral text.dropLast else none
  | name => if isIdentifierName name then some (value name) else none

/-- The string that a token denotes where it stands, in code units. -/
def Position.read (text : List Char) : Position → Option (List Nat)
  | .literal _ | .bufferValue | .foldedValue | .caseLabel => readLiteral text
  | .objectKey _ | .propKey | .bufferKey _ => readKey text
  | .member .. | .propAccess => readAccess text

/-- The printed token denotes the string. -/
def Survives (doubleText : UInt64 → String) (pos : Position) (s : String) : Prop :=
  pos.read (pos.text doubleText s).toList = some (value s.toList)

/-- The characters that a position loses. -/
def Position.lost : Position → Char → Bool
  | .literal .none, _ => false
  | .literal .resolved, c => c = '?'
  | .literal .raw, c => c = '?' || c = '`'
  | .member _ resolved, c => resolved && c = '?'
  | .objectKey resolved, c => c = '\r' || (resolved && c = '?')
  | .propAccess, _ => false
  | .propKey, _ => false
  | .bufferValue, c => c = '?' || c = '`' || c = '\u2028' || c = '\u2029'
  | .bufferKey _, c =>
    c = '?' || c = '`' || c = '\n' || c = '\r' || c = '\u2028' || c = '\u2029'
  | .foldedValue, _ => true
  | .caseLabel, c => c = '"' || c = '\\' || c = '\n' || c = '\r'

/-- A null character is printed as `\0`. -/
def Position.escapesNul : Position → Bool
  | .literal _ | .bufferValue => true
  | _ => false

/-- The string is printed as something else. -/
def Position.replaces (s : String) : Position → Bool
  | .bufferKey _ => s = "" || startsWith s "<"
  | .foldedValue => true
  | _ => false

/-- The strings that a position keeps. -/
def Position.keeps (pos : Position) (s : String) : Bool :=
  s.toList.all (fun c => !pos.lost c) && !(pos.escapesNul && nulBeforeDigit s.toList) &&
    !pos.replaces s

/-! ## Characters -/

section

variable (rest : List Char)

theorem readEscape_backslash : readEscape ('\\' :: rest) = some (unitsOf '\\'.toNat, rest) := by
  simp [readEscape, isNewline, singleEscape]

theorem readEscape_quote : readEscape ('"' :: rest) = some (unitsOf '"'.toNat, rest) := by
  simp [readEscape, isNewline, singleEscape]

theorem readEscape_n : readEscape ('n' :: rest) = some (unitsOf '\n'.toNat, rest) := by
  simp [readEscape, isNewline, singleEscape]

theorem readEscape_r : readEscape ('r' :: rest) = some (unitsOf '\r'.toNat, rest) := by
  simp [readEscape, isNewline, singleEscape]

theorem readEscape_t : readEscape ('t' :: rest) = some (unitsOf '\t'.toNat, rest) := by
  simp [readEscape, isNewline, singleEscape]

theorem readEscape_u2028 :
    readEscape ('u' :: '2' :: '0' :: '2' :: '8' :: rest) = some (unitsOf '\u2028'.toNat, rest) := by
  simp [readEscape, isNewline, readUnicode, readHex, hexValue, unitsOf]

theorem readEscape_u2029 :
    readEscape ('u' :: '2' :: '0' :: '2' :: '9' :: rest) = some (unitsOf '\u2029'.toNat, rest) := by
  simp [readEscape, isNewline, readUnicode, readHex, hexValue, unitsOf]

end

/-- The characters that a replacement changes. -/
def Post.changes : Post → Char → Bool
  | .none, _ => false
  | .resolved, c => c = '?'
  | .raw, c => c = '?' || c = '`' || c = '\n' || c = '\r' || c = '\u2028' || c = '\u2029'

/-- A replaced character is not a digit, and becomes a plain one. -/
theorem post_char_of_changes {post : Post} {c : Char} (h : post.changes c = true) :
    c.isDigit = false ∧ post.char c ≠ c ∧ post.char c ∈ ['_', '\'', ' '] := by
  cases post with
  | none => cases h
  | resolved =>
    obtain rfl : c = '?' := by simpa [Post.changes] using h
    exact ⟨rfl, by decide, by simp [Post.char]⟩
  | raw =>
    simp only [Post.changes, Bool.or_eq_true, decide_eq_true_eq, or_assoc] at h
    rcases h with rfl | rfl | rfl | rfl | rfl | rfl <;>
      exact ⟨rfl, by simp [Post.char, rawChar], by simp [Post.char, rawChar]⟩

theorem post_char_of_not_changes {post : Post} {c : Char} (h : post.changes c = false) :
    post.char c = c := by
  cases post with
  | none => rfl
  | resolved =>
    have hne : c ≠ '?' := by simpa [Post.changes] using h
    simp [Post.char, hne]
  | raw =>
    simp only [Post.changes, Bool.or_eq_false_iff, decide_eq_false_iff_not] at h
    obtain ⟨⟨⟨⟨⟨hq, hb⟩, hn⟩, hr⟩, hls⟩, hps⟩ := h
    simp only [Post.char]
    fun_cases rawChar c <;> simp_all

theorem changes_false_of_escape (post : Post) {c : Char}
    (h : c.isAlphanum = true ∨ c ∈ ['\\', '"', '_', '$']) : post.changes c = false := by
  have hne : ∀ d ∈ ['?', '`', '\n', '\r', '\u2028', '\u2029'], c ≠ d := by
    rintro d hd rfl
    simp only [List.mem_cons, List.not_mem_nil, or_false] at hd
    rcases hd with rfl | rfl | rfl | rfl | rfl | rfl <;> simp at h
  simp only [List.forall_mem_cons] at hne
  cases post <;> simp [Post.changes, hne]

/-- The replacements leave escapes alone. -/
theorem map_post_escape (post : Post) {text : List Char}
    (h : ∀ c ∈ text, c.isAlphanum = true ∨ c ∈ ['\\', '"', '_', '$']) :
    text.map post.char = text := by
  have hfixed : ∀ c ∈ text, post.char c = c := fun c hc =>
    post_char_of_not_changes (changes_false_of_escape post (h c hc))
  rw [List.map_congr_left hfixed, List.map_id']

/-- A character that is not escaped is written as itself or as its replacement. -/
theorem writes_plain {lost : Char → Bool} {escapesNul : Bool} (post : Post) {c : Char}
    (hlost : lost c = post.changes c) (hnul : escapesNul = true → c ≠ '\x00') (hquote : c ≠ '"')
    (hescape : c ≠ '\\') (hnewline : post.changes c = false → isNewline c = false) :
    Writes lost escapesNul c [post.char c] := by
  cases hchanges : post.changes c with
  | false =>
    rw [post_char_of_not_changes hchanges]
    exact .itself (hlost.trans hchanges) hnul hquote (hnewline hchanges) hescape
  | true =>
    obtain ⟨hdigit, hne, hmem⟩ := post_char_of_changes hchanges
    simp only [List.mem_cons, List.not_mem_nil, or_false] at hmem
    refine .other (hlost.trans hchanges) hdigit hne ?_ ?_ ?_ ?_ <;>
      rcases hmem with h | h | h <;> rw [h] <;> decide

/-- The escapes that all printers share. -/
theorem writes_escape {lost : Char → Bool} {escapesNul : Bool} (post : Post) {c e : Char}
    (h : (c, e) ∈ [('\\', '\\'), ('"', '"'), ('\n', 'n'), ('\r', 'r'), ('\t', 't')])
    (hkept : lost c = false) : Writes lost escapesNul c (['\\', e].map post.char) := by
  simp only [List.mem_cons, Prod.mk.injEq, List.not_mem_nil, or_false] at h
  rcases h with ⟨rfl, rfl⟩ | ⟨rfl, rfl⟩ | ⟨rfl, rfl⟩ | ⟨rfl, rfl⟩ | ⟨rfl, rfl⟩ <;>
    rw [map_post_escape post (by simp)]
  · exact .escape hkept (by decide) rfl readEscape_backslash
  · exact .escape hkept (by decide) rfl readEscape_quote
  · exact .escape hkept (by decide) rfl readEscape_n
  · exact .escape hkept (by decide) rfl readEscape_r
  · exact .escape hkept (by decide) rfl readEscape_t

theorem writes_literal (post : Post) (c : Char) :
    Writes (Position.literal post).lost true c ((escapeLiteralChar c).map post.char) := by
  have hkept : ∀ d ∈ ['\\', '"', '\n', '\r', '\x00', '\u2028', '\u2029'],
      (Position.literal post).lost d = false := by
    cases post <;> simp [Position.lost]
  fun_cases escapeLiteralChar c with
  | case1 => exact writes_escape post (by simp) (hkept _ (by simp))
  | case2 => exact writes_escape post (by simp) (hkept _ (by simp))
  | case3 => exact writes_escape post (by simp) (hkept _ (by simp))
  | case4 => exact writes_escape post (by simp) (hkept _ (by simp))
  | case5 =>
    rw [map_post_escape post (by simp)]
    exact .nul (hkept _ (by simp)) rfl rfl
  | case6 =>
    rw [map_post_escape post (by simp)]
    exact .escape (hkept _ (by simp)) (by decide) rfl readEscape_u2028
  | case7 =>
    rw [map_post_escape post (by simp)]
    exact .escape (hkept _ (by simp)) (by decide) rfl readEscape_u2029
  | case8 c hbackslash hquote hn hr hnul hls hps =>
    have hne : c ≠ '\n' ∧ c ≠ '\r' ∧ c ≠ '\u2028' ∧ c ≠ '\u2029' := ⟨hn, hr, hls, hps⟩
    refine writes_plain post ?_ (fun _ => hnul) hquote hbackslash fun _ => ?_
    · cases post <;> simp [Position.lost, Post.changes, hne]
    · simp [isNewline, hne]

theorem writes_member (ofGlobal resolved : Bool) (c : Char) :
    Writes (Position.member ofGlobal resolved).lost false c
      ((escapePropertyChar c).map (Post.ofResolved resolved).char) := by
  have hkept : ∀ d ∈ ['\\', '"', '\n', '\r'], (Position.member ofGlobal resolved).lost d = false := by
    simp [Position.lost]
  fun_cases escapePropertyChar c with
  | case1 => exact writes_escape _ (by simp) (hkept _ (by simp))
  | case2 => exact writes_escape _ (by simp) (hkept _ (by simp))
  | case3 => exact writes_escape _ (by simp) (hkept _ (by simp))
  | case4 => exact writes_escape _ (by simp) (hkept _ (by simp))
  | case5 c hbackslash hquote hn hr =>
    have hne : c ≠ '\n' ∧ c ≠ '\r' := ⟨hn, hr⟩
    refine writes_plain _ ?_ (by simp) hquote hbackslash fun _ => by simp [isNewline, hne]
    cases resolved <;> simp [Position.lost, Post.changes, Post.ofResolved]

theorem writes_objectKey (resolved : Bool) (c : Char) :
    Writes (Position.objectKey resolved).lost false c
      ((escapeKeyChar c).map (Post.ofResolved resolved).char) := by
  have hkept : ∀ d ∈ ['\\', '"', '\n'], (Position.objectKey resolved).lost d = false := by
    simp [Position.lost]
  fun_cases escapeKeyChar c with
  | case1 => exact writes_escape _ (by simp) (hkept _ (by simp))
  | case2 => exact writes_escape _ (by simp) (hkept _ (by simp))
  | case3 => exact writes_escape _ (by simp) (hkept _ (by simp))
  | case4 c hbackslash hquote hn =>
    by_cases hr : c = '\r'
    · subst hr
      have hchar : (Post.ofResolved resolved).char '\r' = '\r' := by cases resolved <;> rfl
      simp only [List.map_cons, List.map_nil, hchar]
      exact .newline rfl rfl rfl
    · have hne : c ≠ '\n' ∧ c ≠ '\r' := ⟨hn, hr⟩
      refine writes_plain _ ?_ (by simp) hquote hbackslash fun _ => by simp [isNewline, hne]
      cases resolved <;> simp [Position.lost, Post.changes, Post.ofResolved, hr]

theorem writes_prop (c : Char) : Writes (fun _ => false) false c (escapePropChar c) := by
  rw [← List.map_id (escapePropChar c)]
  change Writes _ _ _ ((escapePropChar c).map Post.none.char)
  fun_cases escapePropChar c with
  | case1 => exact writes_escape _ (by simp) rfl
  | case2 => exact writes_escape _ (by simp) rfl
  | case3 => exact writes_escape _ (by simp) rfl
  | case4 => exact writes_escape _ (by simp) rfl
  | case5 => exact writes_escape _ (by simp) rfl
  | case6 c hbackslash hquote hn hr =>
    have hne : c ≠ '\n' ∧ c ≠ '\r' := ⟨hn, hr⟩
    exact writes_plain .none rfl (by simp) hquote hbackslash fun _ => by simp [isNewline, hne]

theorem writes_bufferKey (index : Nat) (c : Char) :
    Writes (Position.bufferKey index).lost false c ((escapeBufferKeyChar c).map rawChar) := by
  change Writes _ _ _ ((escapeBufferKeyChar c).map Post.raw.char)
  fun_cases escapeBufferKeyChar c with
  | case1 => exact writes_escape _ (by simp) rfl
  | case2 => exact writes_escape _ (by simp) rfl
  | case3 c hbackslash hquote =>
    refine writes_plain .raw rfl (by simp) hquote hbackslash fun hchanges => ?_
    simp only [Post.changes, Bool.or_eq_false_iff] at hchanges
    simp [isNewline, hchanges]

/-- The hexadecimal digits of a control character. -/
theorem hexDigits_control : ∀ n < 160, (Nat.toDigits 16 n).leftpad 4 '0' =
    ['0', '0', Nat.digitChar (n / 16), Nat.digitChar (n % 16)] := by
  decide +kernel

theorem hexValue_digitChar : ∀ n < 16,
    hexValue (Nat.digitChar n) = some n ∧ (Nat.digitChar n).isAlphanum = true := by
  decide

theorem toNat_lt_of_isControl {c : Char} (h : isControl c = true) :
    c.toNat < 0x20 ∨ 0x7f ≤ c.toNat ∧ c.toNat < 0xa0 := by
  simpa [isControl] using h

/-- A control character is written by its code. -/
theorem writes_control {c : Char} (h : isControl c = true) (hnul : c ≠ '\x00') :
    Writes Position.bufferValue.lost true c (("\\u" ++ hex4 c.toNat).toList.map rawChar) := by
  have hcode := toNat_lt_of_isControl h
  have hlt : c.toNat < 160 := by omega
  obtain ⟨hhigh, halnumHigh⟩ := hexValue_digitChar (c.toNat / 16) (by omega)
  obtain ⟨hlow, halnumLow⟩ := hexValue_digitChar (c.toNat % 16) (by omega)
  have htext : ("\\u" ++ hex4 c.toNat).toList = '\\' ::
      ['u', '0', '0', Nat.digitChar (c.toNat / 16), Nat.digitChar (c.toNat % 16)] := by
    simp only [hex4, String.toList_append, String.toList_ofList]
    rw [hexDigits_control c.toNat hlt]
    rfl
  have hne : ∀ d : Char, (0x20 ≤ d.toNat ∧ d.toNat < 0x7f ∨ 0xa0 ≤ d.toNat) → c ≠ d := by
    rintro d hd rfl
    omega
  have hkept : Position.bufferValue.lost c = false := by
    simp [Position.lost, hne '?' (by decide), hne '`' (by decide), hne '\u2028' (by decide),
      hne '\u2029' (by decide)]
  have hdigit : c.isDigit = false := by
    rw [← Bool.not_eq_true, Char.isDigit_iff_toNat]
    simp only [show '0'.toNat = 48 from rfl, show '9'.toNat = 57 from rfl]
    omega
  rw [htext, show rawChar = Post.raw.char from rfl,
    map_post_escape .raw (by simp [halnumHigh, halnumLow])]
  refine .escape hkept hnul hdigit fun rest => ?_
  have hunits : unitsOf c.toNat = [c.toNat] := by simp [unitsOf, show c.toNat < 65536 by omega]
  have hzero : hexValue '0' = some 0 := rfl
  have hdigits : c.toNat / 16 * 16 + c.toNat % 16 = c.toNat := by omega
  simp [readEscape, isNewline, readUnicode, readHex, hzero, hhigh, hlow, hunits, hdigits]

theorem writes_bufferValue (c : Char) :
    Writes Position.bufferValue.lost true c ((escapeJsChar c).toList.map rawChar) := by
  have hescape : ∀ c e, (c, e) ∈ [('\\', '\\'), ('"', '"'), ('\n', 'n'), ('\r', 'r'), ('\t', 't')] →
      Position.bufferValue.lost c = false →
      Writes Position.bufferValue.lost true c (['\\', e].map rawChar) :=
    fun _ _ h hkept => writes_escape .raw h hkept
  fun_cases escapeJsChar c with
  | case1 => exact hescape '\\' '\\' (by simp) rfl
  | case2 => exact hescape '"' '"' (by simp) rfl
  | case3 => exact hescape '\n' 'n' (by simp) rfl
  | case4 => exact hescape '\r' 'r' (by simp) rfl
  | case5 => exact hescape '\t' 't' (by simp) rfl
  | case6 =>
    rw [show rawChar = Post.raw.char from rfl, map_post_escape .raw (by simp)]
    exact .nul rfl rfl rfl
  | case7 c hbackslash hquote hn hr ht hnul hcontrol => exact writes_control hcontrol hnul
  | case8 c hbackslash hquote hn hr ht hnul hcontrol =>
    have hne : c ≠ '\n' ∧ c ≠ '\r' := ⟨hn, hr⟩
    have htext : c.toString.toList.map rawChar = [Post.raw.char c] := by simp [Post.char]
    rw [htext]
    refine writes_plain .raw ?_ (fun _ => hnul) hquote hbackslash fun _ => by simp [isNewline, hne]
    simp [Position.lost, Post.changes, hne]

/-! ## Tokens -/

theorem readLiteral_quoted (text s : List Char) :
    readLiteral ('"' :: text) = some (value s) ↔ readString '"' text = some (value s, []) := by
  simp only [readLiteral, true_or, if_true]
  rcases readString '"' text with _ | ⟨units, rest⟩
  · simp
  · cases rest <;> simp

theorem keeps_iff (pos : Position) (s : String) :
    pos.keeps s = true ↔ (∀ c ∈ s.toList, pos.lost c = false) ∧
      ¬ (pos.escapesNul = true ∧ nulBeforeDigit s.toList = true) ∧ pos.replaces s = false := by
  rw [Position.keeps]
  cases pos.escapesNul <;> simp [and_assoc]

/-- A quoted string that an escaper writes. -/
theorem readLiteral_code {pos : Position} {code : Char → List Char}
    (hcode : ∀ c, Writes pos.lost pos.escapesNul c (code c)) {s : String}
    (hreplaces : pos.replaces s = false) :
    readLiteral ('"' :: (s.toList.flatMap code ++ ['"'])) = some (value s.toList) ↔
      pos.keeps s = true := by
  rw [readLiteral_quoted, readString_code hcode, keeps_iff]
  simp [hreplaces]

/-- What an identifier consists of. -/
theorem isIdentChar_of_isIdentifierName {s : List Char} (h : isIdentifierName s = true) :
    ∀ c ∈ s, c.isAlphanum = true ∨ c = '_' ∨ c = '$' := by
  cases s with
  | nil => simp
  | cons first chars =>
    simp only [isIdentifierName, Bool.and_eq_true, Bool.or_eq_true, decide_eq_true_eq,
      List.all_eq_true, or_assoc] at h
    refine List.forall_mem_cons.mpr ⟨?_, h.2⟩
    rcases h.1 with halpha | hrest
    · exact .inl (by simp [Char.isAlphanum, halpha])
    · exact .inr hrest

theorem nulBeforeDigit_of_not_mem {s : List Char} (h : '\x00' ∉ s) : nulBeforeDigit s = false := by
  induction s with
  | nil => rfl
  | cons c s ih =>
    simp only [List.mem_cons, not_or] at h
    simp [nulBeforeDigit, Ne.symm h.1, ih h.2]

/-- No position but a folded value loses an identifier. -/
theorem keeps_of_isIdentifierName {pos : Position} (hpos : pos ≠ .foldedValue) {s : String}
    (h : isIdentifierName s.toList = true) : pos.keeps s = true := by
  have hchars := isIdentChar_of_isIdentifierName h
  have hne : ∀ d ∈ ['?', '`', '\n', '\r', '\u2028', '\u2029', '"', '\\', '\x00', '<'],
      ∀ c ∈ s.toList, c ≠ d := by
    rintro d hd c hc rfl
    have hident := hchars c hc
    simp only [List.mem_cons, List.not_mem_nil, or_false] at hd
    rcases hd with rfl | rfl | rfl | rfl | rfl | rfl | rfl | rfl | rfl | rfl <;> simp at hident
  simp only [List.forall_mem_cons] at hne
  obtain ⟨hq, hb, hn, hr, hls, hps, hquote, hbackslash, hnul, hlt, -⟩ := hne
  refine (keeps_iff pos s).mpr ⟨fun c hc => ?_, fun hnot => ?_, ?_⟩
  · cases pos with
    | foldedValue => exact absurd rfl hpos
    | literal post => cases post <;> simp [Position.lost, hq c hc, hb c hc]
    | _ => simp [Position.lost, hq c hc, hb c hc, hn c hc, hr c hc, hls c hc, hps c hc, hquote c hc,
        hbackslash c hc]
  · have hfree := nulBeforeDigit_of_not_mem fun hmem => hnul _ hmem rfl
    exact absurd (hfree.symm.trans hnot.2) (by decide)
  · cases pos with
    | foldedValue => exact absurd rfl hpos
    | bufferKey index =>
      obtain ⟨first, chars, hs⟩ : ∃ first chars, s.toList = first :: chars := by
        refine List.exists_cons_of_ne_nil fun hnil => ?_
        rw [hnil] at h
        exact absurd h (by decide)
      have hnonempty : s ≠ "" := by
        rintro rfl
        exact absurd hs (by simp)
      have hfirst : startsWith s "<" = false :=
        startsWith_false_of_head (by rw [hs]; rfl) (p := "<") rfl (hlt first (by simp [hs]))
      simp [Position.replaces, hnonempty, hfirst]
    | _ => rfl

theorem toList_ofResolved_apply (resolved : Bool) (text : String) :
    ((Post.ofResolved resolved).apply text).toList =
      text.toList.map (Post.ofResolved resolved).char := by
  cases resolved
  · simp [Post.ofResolved, Post.apply, Post.char]
  · simp [Post.ofResolved, Post.apply, Post.char, replaceQuestionMarks]

/-- The replacements leave identifiers alone. -/
theorem map_post_identifier (post : Post) {s : List Char} (h : isIdentifierName s = true) :
    s.map post.char = s := by
  refine map_post_escape post fun c hc => ?_
  rcases isIdentChar_of_isIdentifierName h c hc with halnum | rfl | rfl
  · exact .inl halnum
  · simp
  · simp

section

variable {doubleText : UInt64 → String} (s : String)

theorem survives_literal (post : Post) :
    Survives doubleText (.literal post) s ↔ (Position.literal post).keeps s = true := by
  have hquoted : ((Decompile.Literal.string s).display doubleText).toList =
      '"' :: (s.toList.flatMap escapeLiteralChar ++ ['"']) := by
    simp [Decompile.Literal.display, escapeLiteral]
  have hclose : post.char '"' = '"' := by cases post <;> rfl
  rw [Survives, Position.text, toList_apply_post post (by rw [hquoted]; rfl), hquoted]
  simp only [Position.read, List.map_cons, List.map_append, List.map_flatMap, List.map_nil, hclose]
  exact readLiteral_code (writes_literal post) rfl

/-- A key is read as a literal when it is quoted. -/
theorem readKey_quoted (text : List Char) : readKey ('"' :: text) = readLiteral ('"' :: text) := by
  simp [readKey, isIdentifierName]

theorem isIdentifierName_of_isValidJsIdent {s : String} (h : isValidJsIdent s = true) :
    isIdentifierName s.toList = true := by
  unfold isValidJsIdent at h
  unfold isIdentifierName
  generalize s.toList = chars at h ⊢
  cases chars with
  | nil => cases h
  | cons first chars => exact (Bool.and_eq_true_iff.mp h).1

theorem survives_objectKey (resolved : Bool) :
    Survives doubleText (.objectKey resolved) s ↔ (Position.objectKey resolved).keeps s = true := by
  rw [Survives, Position.text, toList_ofResolved_apply, Position.read, keyText]
  split
  · next hident =>
    have hname := isIdentifierName_of_isValidJsIdent hident
    rw [map_post_identifier _ hname, readKey, if_pos hname]
    exact iff_of_true rfl (keeps_of_isIdentifierName (by simp) hname)
  · have hclose : (Post.ofResolved resolved).char '"' = '"' := by cases resolved <;> rfl
    have htext : ("\"" ++ String.ofList (s.toList.flatMap escapeKeyChar) ++ "\"").toList.map
        (Post.ofResolved resolved).char =
        '"' :: (s.toList.flatMap (fun c => (escapeKeyChar c).map (Post.ofResolved resolved).char) ++
          ['"']) := by
      simp [List.map_flatMap, hclose]
    rw [htext, readKey_quoted]
    exact readLiteral_code (writes_objectKey resolved) rfl

theorem survives_propKey : Survives doubleText .propKey s ↔ Position.propKey.keeps s = true := by
  rw [Survives, Position.text, Position.read, fmtPropKey]
  split
  · next hident =>
    have hname := isIdentifierName_of_isValidJsIdent hident
    rw [readKey, if_pos hname]
    exact iff_of_true rfl (keeps_of_isIdentifierName (by simp) hname)
  · have htext : ("\"" ++ escapeProp s ++ "\"").toList =
        '"' :: (s.toList.flatMap escapePropChar ++ ['"']) := by
      simp [escapeProp]
    rw [htext, readKey_quoted]
    exact @readLiteral_code .propKey _ writes_prop s rfl

theorem survives_bufferValue :
    Survives doubleText .bufferValue s ↔ Position.bufferValue.keeps s = true := by
  have htext : (sanitizeRaw (bufferItem (fun _ => s) doubleText 4 0 0 0)).toList =
      '"' :: (s.toList.flatMap (fun c => (escapeJsChar c).toList.map rawChar) ++ ['"']) := by
    have hjoin : (escapeJsString s).toList = s.toList.flatMap fun c => (escapeJsChar c).toList := by
      simp [escapeJsString, List.flatMap, Function.comp_def]
    simp [sanitizeRaw, bufferItem, hjoin, List.map_flatMap, rawChar]
  rw [Survives, Position.text, htext]
  exact readLiteral_code writes_bufferValue rfl

/-- A key that an underscore starts is read as itself, if at all. -/
theorem readKey_underscore {text : List Char} {v : List Nat} (h : readKey ('_' :: text) = some v) :
    v = value ('_' :: text) := by
  unfold readKey at h
  split at h
  · cases h
    rfl
  · simp [readLiteral] at h

theorem survives_bufferKey (index : Nat) :
    Survives doubleText (.bufferKey index) s ↔ (Position.bufferKey index).keeps s = true := by
  have hraw : ∀ text : String, (sanitizeRaw text).toList = text.toList.map Post.raw.char := by
    intro text
    simp [sanitizeRaw, Post.char]
  rw [Survives, Position.text, Position.read, Structure.bufferKey, if_pos rfl, hraw]
  by_cases hsynthetic : s = "" ∨ startsWith s "<" = true
  · have hreplaces : Position.replaces s (.bufferKey index) = true := by
      simpa [Position.replaces] using hsynthetic
    have htext : ("_" ++ Nat.repr index).toList.map Post.raw.char =
        '_' :: (Nat.repr index).toList.map Post.raw.char := by
      simp [Post.char, rawChar]
    rw [if_pos hsynthetic, htext, Position.keeps, hreplaces]
    refine iff_of_false (fun hread => ?_) (by simp)
    have hvalue := readKey_underscore hread
    rcases hsynthetic with rfl | hless
    · exact absurd (List.append_eq_nil_iff.mp hvalue.symm).1 (by decide)
    · obtain ⟨rest, hrest⟩ := List.isPrefixOf_iff_prefix.mp hless
      rw [← hrest] at hvalue
      exact absurd (unitsOf_append_inj (c := '<') (d := '_') hvalue).1 (by decide)
  · have hreplaces : Position.replaces s (.bufferKey index) = false := by
      simpa [Position.replaces] using hsynthetic
    rw [if_neg hsynthetic]
    split
    · next hident =>
      have hname := isIdentifierName_of_isValidJsIdent hident
      rw [map_post_identifier _ hname, readKey, if_pos hname]
      exact iff_of_true rfl (keeps_of_isIdentifierName (by simp) hname)
    · have htext : ("\"" ++ String.ofList (s.toList.flatMap escapeBufferKeyChar) ++ "\"").toList.map
          Post.raw.char =
          '"' :: (s.toList.flatMap (fun c => (escapeBufferKeyChar c).map rawChar) ++ ['"']) := by
        simp [List.map_flatMap, Post.char, rawChar]
      rw [htext, readKey_quoted]
      exact readLiteral_code (writes_bufferKey index) hreplaces

/-- An access by a quoted key. -/
theorem readAccess_bracket (text : List Char) :
    readAccess ('[' :: (text ++ [']'])) = readLiteral text := by
  simp [readAccess]

theorem readAccess_dot {name : List Char} (h : isIdentifierName name = true) :
    readAccess ('.' :: name) = some (value name) := by
  simp [readAccess, h]

theorem readAccess_identifier {name : List Char} (h : isIdentifierName name = true) :
    readAccess name = some (value name) := by
  unfold readAccess
  split
  · exact absurd h (by simp [isIdentifierName])
  · exact absurd h (by simp [isIdentifierName])
  · rw [if_pos h]

theorem isIdentifierName_of_isIntrinsicGlobal {s : String} (h : isIntrinsicGlobal s = true) :
    isIdentifierName s.toList = true := by
  have hall : ∀ name ∈ intrinsicGlobals, isIdentifierName name.toList = true := by
    simp [intrinsicGlobals, isIdentifierName]
  exact hall s (List.contains_iff_mem.mp h)

theorem survives_propAccess :
    Survives doubleText .propAccess s ↔ Position.propAccess.keeps s = true := by
  rw [Survives, Position.text, Position.read, fmtPropAccess]
  split
  · next hident =>
    have hname := isIdentifierName_of_isValidJsIdent hident
    have htext : ("" ++ "." ++ s).toList = '.' :: s.toList := by simp
    rw [htext, readAccess_dot hname]
    exact iff_of_true rfl (keeps_of_isIdentifierName (by simp) hname)
  · have htext : ("" ++ "[\"" ++ escapeProp s ++ "\"]").toList =
        '[' :: ('"' :: (s.toList.flatMap escapePropChar ++ ['"']) ++ [']']) := by
      simp [escapeProp]
    rw [htext, readAccess_bracket]
    exact @readLiteral_code .propAccess _ writes_prop s rfl

theorem survives_member (ofGlobal resolved : Bool) :
    Survives doubleText (.member ofGlobal resolved) s ↔
      (Position.member ofGlobal resolved).keeps s = true := by
  rw [Survives, Position.text, toList_ofResolved_apply, Position.read, memberText]
  split
  · next hglobal =>
    have hname := isIdentifierName_of_isIntrinsicGlobal hglobal.2
    rw [map_post_identifier _ hname, readAccess_identifier hname]
    exact iff_of_true rfl (keeps_of_isIdentifierName (by simp) hname)
  · simp only [String.toList_empty, List.head?_nil, Option.any_none, Bool.false_eq_true, if_false,
      String.empty_append]
    split
    · next hname =>
      have hdot : (Post.ofResolved resolved).char '.' = '.' := by cases resolved <;> rfl
      have htext : ("." ++ s).toList.map (Post.ofResolved resolved).char = '.' :: s.toList := by
        simp [hdot, map_post_identifier _ hname]
      rw [htext, readAccess_dot hname]
      exact iff_of_true rfl (keeps_of_isIdentifierName (by simp) hname)
    · have htext : ("[\"" ++ escapeProperty s ++ "\"]").toList.map (Post.ofResolved resolved).char =
          '[' :: ('"' :: (s.toList.flatMap (fun c =>
            (escapePropertyChar c).map (Post.ofResolved resolved).char) ++ ['"']) ++ [']']) := by
        have hfixed : ∀ c ∈ ['[', '"', ']'], (Post.ofResolved resolved).char c = c := by
          cases resolved <;> simp [Post.ofResolved, Post.char]
        simp only [List.forall_mem_cons] at hfixed
        simp [escapeProperty, List.map_flatMap, hfixed]
      rw [htext, readAccess_bracket]
      exact readLiteral_code (writes_member ofGlobal resolved) rfl

/-- A literal denotes less than it takes. -/
theorem readLiteral_size {text : List Char} {v : List Nat} (h : readLiteral text = some v) :
    v.length < size text := by
  unfold readLiteral at h
  split at h
  · cases h
  · next quote text =>
    split at h
    · split at h
      · next units hread =>
        cases h
        have hle := readString_size hread
        have hpos := length_unitsOf_pos quote.toNat
        rw [size_cons]
        omega
      · cases h
    · cases h

theorem readLiteral_identifier {text : List Char} (h : isIdentifierName text = true) :
    readLiteral text = none := by
  unfold readLiteral
  split
  · rfl
  · refine if_neg ?_
    rintro (rfl | rfl) <;> simp [isIdentifierName] at h

theorem size_map_rawChar (text : List Char) : size (text.map rawChar) = size text := by
  have hunits : ∀ c, (unitsOf (rawChar c).toNat).length = (unitsOf c.toNat).length := by
    intro c
    fun_cases rawChar c <;> rfl
  induction text with
  | nil => rfl
  | cons c text ih => simp [hunits, ih]

theorem survives_foldedValue :
    Survives doubleText .foldedValue s ↔ Position.foldedValue.keeps s = true := by
  have hkeeps : Position.foldedValue.keeps s = false := by simp [Position.keeps, Position.replaces]
  rw [hkeeps, Survives, Position.text, Position.read, rawText]
  refine iff_of_false (fun hread => ?_) (by simp)
  split at hread
  · next hglobal =>
    rw [readLiteral_identifier (isIdentifierName_of_isIntrinsicGlobal hglobal.2)] at hread
    cases hread
  · have hlt := readLiteral_size hread
    rw [String.toList_ofList, size_map_rawChar] at hlt
    exact absurd hlt (Nat.lt_irrefl _)

theorem survives_caseLabel :
    Survives doubleText .caseLabel s ↔ Position.caseLabel.keeps s = true := by
  have htext : (Structure.caseLabel (fun _ => s) id (stringCase 0)).toList =
      '"' :: (s.toList ++ ['"']) := by
    rw [caseLabel_stringCase]
    simp
  rw [Survives, Position.text, htext, Position.read, readLiteral_quoted, readString_self (by decide),
    keeps_iff]
  simp only [Position.lost, Position.escapesNul, Position.replaces, isNewline]
  refine ⟨fun h => ⟨fun c hc => ?_, by simp, by simp⟩, fun h c hc => ?_⟩
  · simpa [and_assoc, and_comm, and_left_comm] using h c hc
  · simpa [and_assoc, and_comm, and_left_comm] using h.1 c hc

end

/-- A printed string constant denotes the string exactly when its position keeps it. -/
theorem survives_iff_keeps (doubleText : UInt64 → String) (pos : Position) (s : String) :
    Survives doubleText pos s ↔ pos.keeps s = true := by
  cases pos with
  | literal post => exact survives_literal s post
  | member ofGlobal resolved => exact survives_member s ofGlobal resolved
  | objectKey resolved => exact survives_objectKey s resolved
  | propAccess => exact survives_propAccess s
  | propKey => exact survives_propKey s
  | bufferValue => exact survives_bufferValue s
  | bufferKey index => exact survives_bufferKey s index
  | foldedValue => exact survives_foldedValue s
  | caseLabel => exact survives_caseLabel s

/-- A question mark in a returned string is lost, and a quote in a case label ends it. -/
theorem question_mark_not_survives :
    (Position.text (fun _ => "") "ok?" (.literal .resolved)).toList = "\"ok_\"".toList ∧
      ¬ Survives (fun _ => "") (.literal .resolved) "ok?" ∧
      ¬ Survives (fun _ => "") .caseLabel "a\"b" := by
  refine ⟨?_, fun h => ?_, fun h => ?_⟩
  · simp [Position.text, Post.apply, replaceQuestionMarks, Literal.display, escapeLiteral,
      escapeLiteralChar]
  · exact absurd ((survives_literal _ _).mp h) (by decide)
  · exact absurd ((survives_caseLabel _).mp h) (by decide)

end Hermes.Structure
