-- SUMMARY: String literals: their lexical grammar as a reader, and what a character-wise escaper keeps.
import Mathlib.Data.List.Basic
import Mathlib.Logic.Basic

/-!
# String literals

The string tokens of ECMAScript, on characters, in strict code: the reader gives the
code units that a literal denotes. An escaper that works character by character keeps
a string exactly when every character is written as something that denotes it, and no
`\0` comes to stand before a digit.
-/

namespace StringLiteral

-- ---------------------------------------------------------------------------
-- Code units
-- ---------------------------------------------------------------------------

/-- The code units of a code point. -/
def unitsOf (n : Nat) : List Nat :=
  if n < 0x10000 then [n]
  else [0xD800 + (n - 0x10000) / 0x400, 0xDC00 + (n - 0x10000) % 0x400]

/-- The code units of a string. -/
def value (s : List Char) : List Nat := s.flatMap fun c => unitsOf c.toNat

@[simp] theorem value_nil : value [] = [] := rfl

@[simp] theorem value_cons (c : Char) (s : List Char) :
    value (c :: s) = unitsOf c.toNat ++ value s := rfl

theorem length_unitsOf_pos (n : Nat) : 0 < (unitsOf n).length := by
  simp only [unitsOf]
  split <;> simp

theorem length_unitsOf_le (n : Nat) : (unitsOf n).length ≤ 2 := by
  simp only [unitsOf]
  split <;> simp

/-- The first unit tells how many units a character has. -/
theorem unitsOf_append_inj {c d : Char} {v w : List Nat}
    (h : unitsOf c.toNat ++ v = unitsOf d.toNat ++ w) : c = d ∧ v = w := by
  have hc : c.toNat < 0xD800 ∨ 0xDFFF < c.toNat ∧ c.toNat < 0x110000 := c.valid
  have hd : d.toNat < 0xD800 ∨ 0xDFFF < d.toNat ∧ d.toNat < 0x110000 := d.valid
  have heq : c.toNat = d.toNat ∧ v = w := by
    simp only [unitsOf] at h
    split at h <;> split at h <;> simp only [List.cons_append, List.nil_append,
      List.cons.injEq] at h
    · exact h
    · omega
    · omega
    · exact ⟨by omega, h.2.2⟩
  exact ⟨Char.toNat_inj.mp heq.1, heq.2⟩

-- ---------------------------------------------------------------------------
-- Reading
-- ---------------------------------------------------------------------------

def isNewline (c : Char) : Bool := c = '\n' || c = '\r'

def hexValue (c : Char) : Option Nat :=
  if c.isDigit then some (c.toNat - 48)
  else if 'a' ≤ c ∧ c ≤ 'f' then some (c.toNat - 87)
  else if 'A' ≤ c ∧ c ≤ 'F' then some (c.toNat - 55)
  else none

/-- That many hexadecimal digits, behind a number read so far. -/
def readHex : Nat → Nat → List Char → Option (Nat × List Char)
  | 0, n, rest => some (n, rest)
  | digits + 1, n, c :: rest => (hexValue c).bind fun d => readHex digits (n * 16 + d) rest
  | _ + 1, _, [] => none

/-- Hexadecimal digits up to a closing brace. -/
def readBraced (n : Nat) : List Char → Option (Nat × List Char)
  | [] => none
  | c :: rest =>
    if c = '}' then some (n, rest)
    else (hexValue c).bind fun d => readBraced (n * 16 + d) rest

/-- The digits of a `\u` escape. -/
def readUnicode : List Char → Option (List Nat × List Char)
  | '{' :: c :: rest =>
    (hexValue c).bind fun d => (readBraced d rest).bind fun (n, more) =>
      if n ≤ 0x10FFFF then some (unitsOf n, more) else none
  | rest => (readHex 4 0 rest).map fun (n, more) => ([n], more)

/-- The character that a single letter stands for behind a backslash. -/
def singleEscape : Char → Char
  | 'b' => '\x08'
  | 'f' => '\x0c'
  | 'n' => '\n'
  | 'r' => '\r'
  | 't' => '\t'
  | 'v' => '\x0b'
  | c => c

/-- What an escape denotes behind its backslash, and what follows it. A line terminator
continues the line; a digit other than a last zero is not strict code. -/
def readEscape : List Char → Option (List Nat × List Char)
  | [] => none
  | '\r' :: '\n' :: rest => some ([], rest)
  | c :: rest =>
    if isNewline c ∨ c = '\u2028' ∨ c = '\u2029' then some ([], rest)
    else if c = 'x' then (readHex 2 0 rest).map fun (n, more) => ([n], more)
    else if c = 'u' then readUnicode rest
    else if c = '0' ∧ rest.head?.any Char.isDigit = false then some ([0], rest)
    else if c.isDigit then none
    else some (unitsOf (singleEscape c).toNat, rest)

/-! The readers do not make code units out of nothing: what they return is not longer than
what they have passed. -/

/-- The number of code units of a text. -/
def size (text : List Char) : Nat := (value text).length

@[simp] theorem size_nil : size [] = 0 := rfl

@[simp] theorem size_cons (c : Char) (text : List Char) :
    size (c :: text) = (unitsOf c.toNat).length + size text := by
  simp [size]

theorem size_append (s t : List Char) : size (s ++ t) = size s + size t := by
  simp [size, value]

theorem readHex_size {digits n m : Nat} {text rest : List Char}
    (h : readHex digits n text = some (m, rest)) : size rest + digits ≤ size text := by
  induction digits generalizing n text with
  | zero =>
    cases h
    exact Nat.le_refl _
  | succ digits ih =>
    cases text with
    | nil => cases h
    | cons c text =>
      obtain ⟨d, -, hrest⟩ := Option.bind_eq_some_iff.mp h
      have hle := ih hrest
      have hpos := length_unitsOf_pos c.toNat
      simp only [size_cons]
      omega

theorem readBraced_size {n m : Nat} {text rest : List Char}
    (h : readBraced n text = some (m, rest)) : size rest + 1 ≤ size text := by
  induction text generalizing n with
  | nil => cases h
  | cons c text ih =>
    have hpos := length_unitsOf_pos c.toNat
    simp only [readBraced] at h
    simp only [size_cons]
    split at h
    · cases h
      omega
    · obtain ⟨d, -, hrest⟩ := Option.bind_eq_some_iff.mp h
      have hle := ih hrest
      omega

theorem readUnicode_size {text rest : List Char} {u : List Nat}
    (h : readUnicode text = some (u, rest)) : u.length + size rest ≤ size text := by
  unfold readUnicode at h
  split at h
  · next c text =>
    obtain ⟨d, -, hbraced⟩ := Option.bind_eq_some_iff.mp h
    obtain ⟨⟨n, more⟩, hread, hrange⟩ := Option.bind_eq_some_iff.mp hbraced
    have hle := readBraced_size hread
    have hbrace := length_unitsOf_pos '{'.toNat
    have hpos := length_unitsOf_pos c.toNat
    have hunits := length_unitsOf_le n
    simp only at hrange
    split at hrange
    · cases hrange
      simp only [size_cons]
      omega
    · cases hrange
  · obtain ⟨⟨n, more⟩, hread, hpair⟩ := Option.map_eq_some_iff.mp h
    cases hpair
    have hle := readHex_size hread
    simp only [List.length_singleton]
    omega

theorem length_unitsOf_singleEscape (c : Char) :
    (unitsOf (singleEscape c).toNat).length ≤ (unitsOf c.toNat).length := by
  have hpos := length_unitsOf_pos c.toNat
  fun_cases singleEscape c with
  | case7 => exact Nat.le_refl _
  | _ => exact hpos

theorem readEscape_size {text rest : List Char} {u : List Nat}
    (h : readEscape text = some (u, rest)) :
    u.length + size rest ≤ size text ∧ size rest < size text := by
  unfold readEscape at h
  split at h
  · cases h
  · cases h
    have hr := length_unitsOf_pos '\r'.toNat
    simp only [size_cons, List.length_nil]
    omega
  · next c text _ =>
    have hpos := length_unitsOf_pos c.toNat
    have hsingle := length_unitsOf_singleEscape c
    simp only [size_cons]
    split_ifs at h with hnewline hx hu hzero hdigit
    · cases h
      simp only [List.length_nil]
      omega
    · obtain ⟨⟨n, more⟩, hread, hpair⟩ := Option.map_eq_some_iff.mp h
      cases hpair
      have hle := readHex_size hread
      simp only [List.length_singleton]
      omega
    · have hle := readUnicode_size h
      omega
    · cases h
      simp only [List.length_singleton]
      omega
    · cases h
      omega

/-- A literal behind its opening quote: the code units that it denotes, and what follows the
closing quote. -/
def readString (quote : Char) : List Char → Option (List Nat × List Char)
  | [] => none
  | c :: rest =>
    if c = quote then some ([], rest)
    else if isNewline c then none
    else if c = '\\' then
      match h : readEscape rest with
      | none => none
      | some (u, more) =>
        have := (readEscape_size h).2
        (readString quote more).map fun (v, after) => (u ++ v, after)
    else (readString quote rest).map fun (v, after) => (unitsOf c.toNat ++ v, after)
termination_by text => size text
decreasing_by
  all_goals
    have hpos := length_unitsOf_pos c.toNat
    simp only [size_cons]
    omega

section

variable {quote c : Char} {rest : List Char}

@[simp] theorem readString_nil : readString quote [] = none := by rw [readString]

@[simp] theorem readString_quote : readString quote (quote :: rest) = some ([], rest) := by
  rw [readString, if_pos rfl]

theorem readString_newline (hquote : c ≠ quote) (h : isNewline c = true) :
    readString quote (c :: rest) = none := by
  rw [readString, if_neg hquote, if_pos h]

theorem readString_escape (hquote : '\\' ≠ quote) :
    readString quote ('\\' :: rest) = (readEscape rest).bind fun (u, more) =>
      (readString quote more).map fun (v, after) => (u ++ v, after) := by
  rw [readString, if_neg hquote, if_neg (by decide), if_pos rfl]
  split
  · next h => simp [h]
  · next u more h => simp [h]

theorem readString_plain (hquote : c ≠ quote) (hnewline : isNewline c = false)
    (hescape : c ≠ '\\') :
    readString quote (c :: rest) =
      (readString quote rest).map fun (v, after) => (unitsOf c.toNat ++ v, after) := by
  rw [readString, if_neg hquote, if_neg (by simp [hnewline]), if_neg hescape]

end

/-- The text of a literal is longer than what it denotes. -/
theorem readString_size {quote : Char} {text rest : List Char} {v : List Nat}
    (h : readString quote text = some (v, rest)) :
    v.length + size rest + size [quote] ≤ size text := by
  fun_induction readString quote text generalizing v with
  | case1 => cases h
  | case2 more =>
    cases h
    simp only [size_cons, size_nil, List.length_nil]
    omega
  | case3 => cases h
  | case4 => cases h
  | case5 text u more hescape _ _ _ ih =>
    obtain ⟨⟨w, after⟩, hread, hpair⟩ := Option.map_eq_some_iff.mp h
    cases hpair
    have hle := ih hread
    have hsize := readEscape_size hescape
    rw [List.length_append, size_cons _ text]
    omega
  | case6 c text _ _ _ ih =>
    obtain ⟨⟨w, after⟩, hread, hpair⟩ := Option.map_eq_some_iff.mp h
    cases hpair
    have hle := ih hread
    rw [List.length_append, size_cons _ text]
    omega

-- ---------------------------------------------------------------------------
-- Writing
-- ---------------------------------------------------------------------------

/-- A string without an escaper is read back exactly when it holds none of the characters
that a literal cannot hold as they are. -/
theorem readString_self {quote : Char} (hescape : '\\' ≠ quote) (s : List Char) :
    readString quote (s ++ [quote]) = some (value s, []) ↔
      ∀ c ∈ s, c ≠ quote ∧ isNewline c = false ∧ c ≠ '\\' := by
  induction s with
  | nil => simp
  | cons c s ih =>
    rw [List.forall_mem_cons, List.cons_append, value_cons, ← ih]
    by_cases hquote : c = quote
    · subst hquote
      simp
    · by_cases hnewline : isNewline c = true
      · simp [readString_newline hquote hnewline, hnewline]
      · by_cases hbackslash : c = '\\'
        · subst hbackslash
          -- an escape denotes less than it takes, so the value would be too short
          have hshort : readString quote ('\\' :: (s ++ [quote])) ≠
              some (unitsOf '\\'.toNat ++ value s, []) := by
            intro h
            rw [readString_escape hescape] at h
            obtain ⟨⟨u, more⟩, hread, hrest⟩ := Option.bind_eq_some_iff.mp h
            obtain ⟨⟨v, after⟩, hmore, hpair⟩ := Option.map_eq_some_iff.mp hrest
            simp only [Prod.mk.injEq] at hpair
            have hlength := congrArg List.length hpair.1
            have hunits : (unitsOf '\\'.toNat).length = 1 := rfl
            have hread := (readEscape_size hread).1
            have hmore := readString_size hmore
            rw [size_append] at hread
            simp only [List.length_append, hunits] at hlength
            have hs : (value s).length = size s := rfl
            omega
          exact iff_of_false hshort fun h => h.1.2.2 rfl
        · rw [readString_plain hquote (by simpa using hnewline) hbackslash]
          simp [hquote, hnewline, hbackslash, Option.map_eq_some_iff]

/-- A null character stands before a digit. -/
def nulBeforeDigit : List Char → Bool
  | [] => false
  | c :: rest => (c = '\x00' && rest.head?.any Char.isDigit) || nulBeforeDigit rest

/-- How an escaper writes a character between double quotes: as itself, as an escape, as
something else, or as an end of the line. -/
inductive Writes (lost : Char → Bool) (escapesNul : Bool) (c : Char) : List Char → Prop
  | itself (hkept : lost c = false) (hnul : escapesNul = true → c ≠ '\x00') (hquote : c ≠ '"')
    (hnewline : isNewline c = false) (hescape : c ≠ '\\') : Writes lost escapesNul c [c]
  | escape {e} (hkept : lost c = false) (hnul : c ≠ '\x00') (hdigit : c.isDigit = false)
    (hread : ∀ rest, readEscape (e ++ rest) = some (unitsOf c.toNat, rest)) :
    Writes lost escapesNul c ('\\' :: e)
  | nul (hkept : lost c = false) (hescapes : escapesNul = true) (hnul : c = '\x00') :
    Writes lost escapesNul c ['\\', '0']
  | other {d} (hlost : lost c = true) (hdigit : c.isDigit = false) (hne : d ≠ c)
    (hother : d.isDigit = false) (hquote : d ≠ '"') (hnewline : isNewline d = false)
    (hescape : d ≠ '\\') : Writes lost escapesNul c [d]
  | newline {d} (hlost : lost c = true) (hdigit : c.isDigit = false)
    (hnewline : isNewline d = true) : Writes lost escapesNul c [d]

section

variable {lost : Char → Bool} {escapesNul : Bool} {code : Char → List Char}
  (hcode : ∀ c, Writes lost escapesNul c (code c))

include hcode

theorem head?_isDigit_code (s : List Char) :
    (s.flatMap code ++ ['"']).head?.any Char.isDigit = s.head?.any Char.isDigit := by
  cases s with
  | nil => rfl
  | cons c s =>
    simp only [List.flatMap_cons, List.append_assoc, List.head?_cons, Option.any_some]
    have hwrites := hcode c
    generalize code c = text at hwrites
    cases hwrites with
    | itself => rfl
    | escape _ _ hdigit => exact hdigit.symm
    | nul _ _ hnul => exact hnul ▸ rfl
    | other _ hdigit _ hother => exact hother.trans hdigit.symm
    | newline _ hdigit hnewline =>
      refine Eq.trans ?_ hdigit.symm
      simp only [isNewline, Bool.or_eq_true, decide_eq_true_eq] at hnewline
      rcases hnewline with rfl | rfl <;> rfl

/-- What is read back behind one written character. -/
theorem readString_code_cons (c : Char) (s : List Char) :
    readString '"' ((c :: s).flatMap code ++ ['"']) = some (value (c :: s), []) ↔
      lost c = false ∧ ¬ (escapesNul = true ∧ c = '\x00' ∧ s.head?.any Char.isDigit = true) ∧
        readString '"' (s.flatMap code ++ ['"']) = some (value s, []) := by
  have hhead := head?_isDigit_code hcode s
  have hquote : '\\' ≠ '"' := by decide
  have hwrites := hcode c
  rw [List.flatMap_cons, List.append_assoc, value_cons]
  generalize code c = text at hwrites
  generalize s.flatMap code ++ ['"'] = rest at hhead ⊢
  cases hwrites with
  | itself hkept hnul hquote hnewline hescape =>
    have hnot : ¬ (escapesNul = true ∧ c = '\x00' ∧ s.head?.any Char.isDigit = true) :=
      fun h => hnul h.1 h.2.1
    rw [List.singleton_append, readString_plain hquote hnewline hescape]
    simp [hkept, hnot, Option.map_eq_some_iff]
  | escape hkept hnul hdigit hread =>
    have hnot : ¬ (escapesNul = true ∧ c = '\x00' ∧ s.head?.any Char.isDigit = true) :=
      fun h => hnul h.2.1
    rw [List.cons_append, readString_escape hquote, hread]
    simp [hkept, hnot, Option.map_eq_some_iff]
  | nul hkept hescapes hnul =>
    subst hnul
    have hread : readEscape ('0' :: rest) =
        if rest.head?.any Char.isDigit = false then some ([0], rest) else none := by
      simp [readEscape, isNewline]
    rw [List.cons_append, List.singleton_append, readString_escape hquote, hread, hhead]
    by_cases hdigit : s.head?.any Char.isDigit = true
    · simp [hdigit, hescapes]
    · have hunits : unitsOf '\x00'.toNat = [0] := rfl
      rw [if_pos (by simpa using hdigit), hunits]
      simp [hdigit, hkept, Option.map_eq_some_iff]
  | other hlost hdigit hne hother hquote hnewline hescape =>
    rw [List.singleton_append, readString_plain hquote hnewline hescape]
    refine iff_of_false ?_ fun h => absurd (hlost.symm.trans h.1) (by decide)
    intro h
    obtain ⟨⟨v, after⟩, hread, hpair⟩ := Option.map_eq_some_iff.mp h
    simp only [Prod.mk.injEq] at hpair
    exact hne (unitsOf_append_inj hpair.1).1
  | newline hlost hdigit hnewline =>
    rename_i d
    have hnotQuote : d ≠ '"' := by
      rintro rfl
      exact absurd hnewline (by decide)
    rw [List.singleton_append, readString_newline hnotQuote hnewline]
    exact iff_of_false (by simp) fun h => absurd (hlost.symm.trans h.1) (by decide)

/-- An escaper keeps a string exactly when it loses none of its characters and no escaped
null character stands before a digit. -/
theorem readString_code (s : List Char) :
    readString '"' (s.flatMap code ++ ['"']) = some (value s, []) ↔
      (∀ c ∈ s, lost c = false) ∧ ¬ (escapesNul = true ∧ nulBeforeDigit s = true) := by
  induction s with
  | nil => simp [nulBeforeDigit]
  | cons c s ih =>
    rw [readString_code_cons hcode c s, ih, List.forall_mem_cons]
    simp only [nulBeforeDigit, Bool.or_eq_true, Bool.and_eq_true, decide_eq_true_eq]
    tauto

end

end StringLiteral
