-- SUMMARY: Texts as lines, read with and without their terminators.
import Mathlib.Data.List.Basic
import Mathlib.Data.List.Infix

/-!
# Lines

A text is a list of lines, each ended by a line feed, and a tail without one. Reading
the lines of a text also takes a carriage return from the end of each terminated line,
and ends with the tail unless that is empty.
-/

namespace Lines

-- ---------------------------------------------------------------------------
-- Terminated lines
-- ---------------------------------------------------------------------------

/-- The terminated lines and the tail. -/
def splitLines : List Char → List (List Char) × List Char
  | [] => ([], [])
  | c :: s =>
    if c = '\n' then ([] :: (splitLines s).1, (splitLines s).2)
    else
      match (splitLines s).1 with
      | [] => ([], c :: (splitLines s).2)
      | line :: rest => ((c :: line) :: rest, (splitLines s).2)

def joinLines (ls : List (List Char)) : List Char := ls.flatMap (· ++ ['\n'])

@[simp]
theorem joinLines_nil : joinLines [] = [] := rfl

@[simp]
theorem joinLines_cons (line : List Char) (rest : List (List Char)) :
    joinLines (line :: rest) = line ++ '\n' :: joinLines rest := by
  simp [joinLines]

@[simp]
theorem joinLines_append (ls ls' : List (List Char)) :
    joinLines (ls ++ ls') = joinLines ls ++ joinLines ls' :=
  List.flatMap_append

theorem splitLines_newline (s : List Char) :
    splitLines ('\n' :: s) = ([] :: (splitLines s).1, (splitLines s).2) := by
  rw [splitLines, if_pos rfl]

theorem splitLines_line {line : List Char} (h : '\n' ∉ line) (s : List Char) :
    splitLines (line ++ '\n' :: s) = (line :: (splitLines s).1, (splitLines s).2) := by
  induction line with
  | nil => exact splitLines_newline s
  | cons c line ih =>
    obtain ⟨hc, hline⟩ := not_or.mp (mt List.mem_cons.mpr h)
    rw [List.cons_append, splitLines, if_neg fun heq => hc heq.symm, ih hline]

theorem splitLines_tail {s : List Char} (h : '\n' ∉ s) : splitLines s = ([], s) := by
  induction s with
  | nil => rfl
  | cons c s ih =>
    obtain ⟨hc, hs⟩ := not_or.mp (mt List.mem_cons.mpr h)
    rw [splitLines, if_neg fun heq => hc heq.symm, ih hs]

theorem splitLines_join {ls : List (List Char)} {tail : List Char} (hls : ∀ line ∈ ls, '\n' ∉ line)
    (htail : '\n' ∉ tail) : splitLines (joinLines ls ++ tail) = (ls, tail) := by
  induction ls with
  | nil => exact splitLines_tail htail
  | cons line rest ih =>
    rw [List.forall_mem_cons] at hls
    rw [joinLines_cons, List.append_assoc, List.cons_append, splitLines_line hls.1, ih hls.2]

theorem newline_notMem_splitLines (s : List Char) :
    (∀ line ∈ (splitLines s).1, '\n' ∉ line) ∧ '\n' ∉ (splitLines s).2 := by
  induction s with
  | nil => simp [splitLines]
  | cons c s ih =>
    rw [splitLines]
    split
    · exact ⟨List.forall_mem_cons.mpr ⟨List.not_mem_nil, ih.1⟩, ih.2⟩
    · next hc =>
      have hcons : ∀ {l : List Char}, '\n' ∉ l → '\n' ∉ c :: l := fun hl hmem =>
        (List.mem_cons.mp hmem).elim (fun heq => hc heq.symm) hl
      split
      · exact ⟨fun line hline => (List.not_mem_nil hline).elim, hcons ih.2⟩
      · next line rest heq =>
        rw [heq, List.forall_mem_cons] at ih
        exact ⟨List.forall_mem_cons.mpr ⟨hcons ih.1.1, ih.1.2⟩, ih.2⟩

-- ---------------------------------------------------------------------------
-- Reading
-- ---------------------------------------------------------------------------

/-- The line without a carriage return at its end. -/
def stripReturn (line : List Char) : List Char :=
  if line.getLast? = some '\r' then line.dropLast else line

/-- `str::lines`. -/
def lines (s : List Char) : List (List Char) :=
  (splitLines s).1.map stripReturn ++ if (splitLines s).2 = [] then [] else [(splitLines s).2]

theorem stripReturn_eq_self {line : List Char} :
    stripReturn line = line ↔ line.getLast? ≠ some '\r' := by
  rw [stripReturn]
  split
  · next h =>
    refine iff_of_false (fun heq => ?_) (not_not_intro h)
    have hlen := congrArg List.length heq
    rw [List.length_dropLast] at hlen
    have hpos : 0 < line.length := List.length_pos_iff.mpr (by rintro rfl; cases h)
    omega
  · next h => exact iff_of_true rfl h

theorem newline_notMem_lines {s line : List Char} (h : line ∈ lines s) : '\n' ∉ line := by
  obtain ⟨hlines, htail⟩ := newline_notMem_splitLines s
  rcases List.mem_append.mp h with hmem | hmem
  · obtain ⟨full, hfull, rfl⟩ := List.mem_map.mp hmem
    rw [stripReturn]
    split
    · exact fun hc => hlines full hfull (List.dropLast_subset _ hc)
    · exact hlines full hfull
  · split at hmem
    · cases hmem
    · cases List.mem_singleton.mp hmem
      exact htail

theorem lines_join {ls : List (List Char)} {tail : List Char} (hls : ∀ line ∈ ls, '\n' ∉ line)
    (htail : '\n' ∉ tail) :
    lines (joinLines ls ++ tail) = ls.map stripReturn ++ if tail = [] then [] else [tail] := by
  rw [lines, splitLines_join hls htail]

-- ---------------------------------------------------------------------------
-- Beginnings and ends
-- ---------------------------------------------------------------------------

/-- `str::strip_prefix`. -/
def stripPrefix? (start s : List Char) : Option (List Char) :=
  if start <+: s then some (s.drop start.length) else none

/-- `str::strip_suffix`. -/
def stripSuffix? (stop s : List Char) : Option (List Char) :=
  if stop <:+ s then some (s.take (s.length - stop.length)) else none

theorem stripPrefix?_eq_some {start s rest : List Char} :
    stripPrefix? start s = some rest ↔ s = start ++ rest := by
  rw [stripPrefix?]
  constructor
  · intro h
    split at h
    · next hstart =>
      obtain ⟨tail, rfl⟩ := hstart
      cases h
      rw [List.drop_left]
    · cases h
  · rintro rfl
    rw [if_pos (List.prefix_append start rest), List.drop_left]

theorem stripSuffix?_eq_some {stop s front : List Char} :
    stripSuffix? stop s = some front ↔ s = front ++ stop := by
  rw [stripSuffix?]
  constructor
  · intro h
    split at h
    · next hstop =>
      obtain ⟨head, rfl⟩ := hstop
      cases h
      simp
    · cases h
  · rintro rfl
    rw [if_pos (List.suffix_append front stop)]
    simp

end Lines
