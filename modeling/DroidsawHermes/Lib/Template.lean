-- SUMMARY: Template literals: their chunks, their substitutions, and when a text is one of them.
import Mathlib.Data.List.Basic
import Mathlib.Logic.Basic

/-!
# Template literals

The template tokens of ECMAScript, on characters. A chunk ends at the first
backtick or `${` that is not part of an escape; a backslash escapes the character
after it, whatever it is. What stands between `${` and its closing brace is read
by a parameter.
-/

namespace Template

-- ---------------------------------------------------------------------------
-- Chunks
-- ---------------------------------------------------------------------------

/-- What ends a chunk: the closing backtick, or the `${` of a substitution. -/
inductive Stop where
  | close
  | hole
  deriving DecidableEq, Repr

def Stop.text : Stop → List Char
  | .close => ['`']
  | .hole => ['$', '{']

/-- The source text of a chunk, what ends it, and what follows. -/
def readChunk : List Char → Option (List Char × Stop × List Char)
  | [] => none
  | '`' :: rest => some ([], .close, rest)
  | '$' :: '{' :: rest => some ([], .hole, rest)
  | ['\\'] => none
  | '\\' :: c :: rest => (readChunk rest).map fun (chunk, r) => ('\\' :: c :: chunk, r)
  | c :: rest => (readChunk rest).map fun (chunk, r) => (c :: chunk, r)

/-- No backtick and no `${` outside an escape, and no escape without its character. -/
def closed : List Char → Bool
  | [] => true
  | '`' :: _ => false
  | '$' :: '{' :: _ => false
  | ['\\'] => false
  | '\\' :: _ :: rest => closed rest
  | _ :: rest => closed rest

-- The side conditions of the last equation of a scan, as conditions on the character
-- and on what follows it.

theorem ne_of_cases {c escape : Char} {rest : List Char} (hnil : c = escape → rest = [] → False)
    (hcons : ∀ next more, c = escape → rest = next :: more → False) : c ≠ escape := by
  intro hc
  cases rest with
  | nil => exact hnil hc rfl
  | cons next more => exact hcons next more hc rfl

theorem head?_ne_of_cases {c : Char} {rest : List Char}
    (hhole : ∀ more, c = '$' → rest = '{' :: more → False) : c = '$' → rest.head? ≠ some '{' := by
  intro hc hbrace
  obtain ⟨more, rfl⟩ := List.head?_eq_some_iff.mp hbrace
  exact hhole more hc rfl

section

variable {c : Char} {rest : List Char} (hclose : c ≠ '`') (hpair : c ≠ '\\')
  (hhole : c = '$' → rest.head? ≠ some '{')

include hclose hpair hhole

theorem readChunk_plain :
    readChunk (c :: rest) = (readChunk rest).map fun (chunk, r) => (c :: chunk, r) := by
  rw [readChunk]
  · exact hclose
  · rintro more hdollar rfl
    exact hhole hdollar rfl
  · exact fun h => absurd h hpair
  · exact fun _ _ h => absurd h hpair

theorem closed_plain : closed (c :: rest) = closed rest := by
  rw [closed]
  · exact hclose
  · rintro more hdollar rfl
    exact hhole hdollar rfl
  · exact fun h => absurd h hpair
  · exact fun _ _ h => absurd h hpair

end

/-- A chunk continues after a plain character and what ends it. -/
theorem head?_append_stop {chunk : List Char} (stop : Stop) (rest : List Char)
    (h : chunk.head? ≠ some '{') : (chunk ++ (stop.text ++ rest)).head? ≠ some '{' := by
  cases chunk with
  | nil => cases stop <;> simp [Stop.text]
  | cons c chunk => simpa using h

/-- A closed chunk is read whole. -/
theorem readChunk_append (stop : Stop) (rest : List Char) {chunk : List Char}
    (h : closed chunk = true) :
    readChunk (chunk ++ (stop.text ++ rest)) = some (chunk, stop, rest) := by
  induction chunk using closed.induct with
  | case1 => cases stop <;> rfl
  | case2 rest => exact absurd h (by simp [closed])
  | case3 rest => exact absurd h (by simp [closed])
  | case4 => exact absurd h (by simp [closed])
  | case5 c chunk ih =>
    rw [closed] at h
    simp [readChunk, ih h]
  | case6 c chunk hclose hhole hlone hpair ih =>
    have hplain := ne_of_cases hlone hpair
    have hhead := head?_ne_of_cases hhole
    rw [closed_plain hclose hplain hhead] at h
    rw [List.cons_append, readChunk_plain hclose hplain
      (fun hc => head?_append_stop stop rest (hhead hc)), ih h]
    rfl

-- ---------------------------------------------------------------------------
-- Literals
-- ---------------------------------------------------------------------------

section

-- Reads a substitution: its text up to the closing brace, and what follows.
variable (readHole : List Char → Option (List Char × List Char))

/-- The text that follows the opening backtick of a literal, with its chunks, its
substitutions and what follows the literal. -/
inductive Lexes : List Char → List (List Char) → List (List Char) → List Char → Prop
  | close {text chunk rest} (h : readChunk text = some (chunk, .close, rest)) :
    Lexes text [chunk] [] rest
  | hole {text chunk source hole more chunks holes rest}
    (h : readChunk text = some (chunk, .hole, source)) (hhole : readHole source = some (hole, more))
    (hmore : Lexes more chunks holes rest) : Lexes text (chunk :: chunks) (hole :: holes) rest

/-- The reader finds the closing brace after the text, whatever follows. -/
def Balanced (hole : List Char) : Prop :=
  ∀ rest, readHole (hole ++ '}' :: rest) = some (hole, rest)

variable {readHole}

/-- A text is one literal at most. -/
theorem Lexes.unique {text rest rest' : List Char} {chunks holes chunks' holes' : List (List Char)}
    (h : Lexes readHole text chunks holes rest) (h' : Lexes readHole text chunks' holes' rest') :
    chunks' = chunks ∧ holes' = holes ∧ rest' = rest := by
  induction h generalizing chunks' holes' with
  | close h =>
    cases h' with
    | close hchunk =>
      rw [h] at hchunk
      cases hchunk
      exact ⟨rfl, rfl, rfl⟩
    | hole hchunk =>
      rw [h] at hchunk
      cases hchunk
  | hole h hhole hmore ih =>
    cases h' with
    | close hchunk =>
      rw [h] at hchunk
      cases hchunk
    | hole hchunk hread hrest =>
      rw [h] at hchunk
      cases hchunk
      rw [hhole] at hread
      cases hread
      obtain ⟨rfl, rfl, rfl⟩ := ih hrest
      exact ⟨rfl, rfl, rfl⟩

/-- Chunks with substitutions between them, and the closing backtick. -/
def assemble (chunk : List Char) : List (List Char × List Char) → List Char
  | [] => chunk ++ ['`']
  | (hole, next) :: rest => chunk ++ ('$' :: '{' :: hole) ++ '}' :: assemble next rest

/-- Closed chunks and balanced substitutions are read back. -/
theorem lexes_assemble {chunk : List Char} {parts : List (List Char × List Char)}
    (hchunk : closed chunk = true) (hparts : ∀ p ∈ parts, Balanced readHole p.1 ∧ closed p.2 = true)
    (rest : List Char) :
    Lexes readHole (assemble chunk parts ++ rest) (chunk :: parts.map Prod.snd)
      (parts.map Prod.fst) rest := by
  induction parts generalizing chunk with
  | nil =>
    refine .close ?_
    simpa [assemble, Stop.text] using readChunk_append .close rest hchunk
  | cons p parts ih =>
    obtain ⟨hole, next⟩ := p
    obtain ⟨hbalanced, hnext⟩ := hparts _ List.mem_cons_self
    have hread : readChunk (assemble chunk ((hole, next) :: parts) ++ rest) =
        some (chunk, .hole, hole ++ '}' :: (assemble next parts ++ rest)) := by
      simpa [assemble, Stop.text] using
        readChunk_append .hole (hole ++ '}' :: (assemble next parts ++ rest)) hchunk
    exact .hole hread (hbalanced _) (ih hnext fun p hp => hparts p (List.mem_cons_of_mem _ hp))

end

/-- A reader of substitutions without quotes, templates, comments and regular expressions:
it matches the braces, `depth` of them being open. -/
def readBraces (depth : Nat) : List Char → Option (List Char × List Char)
  | [] => none
  | c :: rest =>
    if c = '}' ∧ depth = 0 then some ([], rest)
    else
      let inside := if c = '}' then depth - 1 else if c = '{' then depth + 1 else depth
      (readBraces inside rest).map fun (hole, more) => (c :: hole, more)

end Template
