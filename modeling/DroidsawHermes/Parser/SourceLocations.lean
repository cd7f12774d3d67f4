-- SUMMARY: The walk over the source-locations stream, and when every function it returns begins where the stream says.
import DroidsawHermes.Parser.Read

/-!
# Source locations

`decode_source_locations` of `parser/debug_info.rs`. The reader of a signed LEB128
number is a parameter: it returns the number and the bytes it took.
-/

namespace Hermes

/-! ## The data -/

structure SourceLocation where
  address : Nat
  line : Nat
  column : Nat
  statement : Nat
  deriving DecidableEq, Repr

structure FunctionSourceInfo where
  functionIndex : Nat
  startLine : Nat
  startColumn : Nat
  locations : List SourceLocation
  corrupt : Bool
  deriving DecidableEq, Repr

def sourceLocationsMaxPcEntries : Nat := 1 <<< 20
def sourceLocationsMaxFunctions : Nat := 1 <<< 22

/-- `i32::saturating_add`, for the sum `n`. -/
def saturateI32 (n : Int) : Int := max (-2 ^ 31) (min n (2 ^ 31 - 1))

/-- `i64::saturating_add`, for the sum `n`. -/
def saturateI64 (n : Int) : Int := max (-2 ^ 63) (min n (2 ^ 63 - 1))

/-- `u32::try_from(i32::max(n, 0)).unwrap_or(0)`. -/
def clampI32 (n : Int) : Nat := (max n 0).toNat

/-- `u32::try_from(n.clamp(0, u32::MAX)).unwrap_or(0)`. -/
def clampU32 (n : Int) : Nat := (max 0 (min n u32Max)).toNat

/-- The running values of a function. -/
structure SourceCursor where
  address : Int
  line : Int
  column : Int
  statement : Int

/-- The deltas of one entry. -/
structure PcEntry where
  address : Int
  line : Int
  column : Int
  statement : Int

def SourceCursor.advance (cur : SourceCursor) (e : PcEntry) : SourceCursor where
  address := saturateI64 (cur.address + e.address)
  line := saturateI32 (cur.line + e.line)
  column := saturateI32 (cur.column + e.column)
  statement := saturateI64 (cur.statement + e.statement)

def SourceCursor.location (cur : SourceCursor) : SourceLocation where
  address := clampU32 cur.address
  line := clampI32 cur.line
  column := clampI32 cur.column
  statement := clampU32 cur.statement

/-- `(function_index, start_line, start_column)`. -/
structure SourceHeader where
  functionIndex : Int
  startLine : Int
  startColumn : Int

def SourceHeader.cursor (h : SourceHeader) : SourceCursor := ⟨0, max h.startLine 0, max h.startColumn 0, 0⟩

/-! ## The walk -/

/-- How the loop over the entries of a function ends: at the terminator, at a read that
fails, or at the cap. `corrupt` is set by a read that fails. -/
inductive StreamExit where
  | terminator
  | truncated
  | cap
  deriving DecidableEq, Repr

/-- One round of that loop. -/
inductive PcRead where
  | terminator
  | entry (e : PcEntry)

section

variable (read : List UInt8 → Nat → Option (Int × Nat)) (data : List UInt8) (version : Nat)

/-- A read, and the position behind it. -/
def readAt (pos : Nat) : Option (Int × Nat) :=
  (read data pos).map fun r => (r.1, saturatingAddU64 pos r.2)

/-- The numbers of an entry that are read and not used. -/
def skipFields : Nat → Nat → Option Nat
  | 0, pos => some pos
  | n + 1, pos => do
    let (_, pos) ← readAt read data pos
    skipFields n pos

/-- Scope address and register before version 97, an environment index from 99 on. -/
def envFields : Nat := if 94 ≤ version ∧ version < 97 then 2 else if version ≥ 99 then 1 else 0

/-- What one round of the inner loop reads, `none` when a read fails. -/
def readPc (pos : Nat) : Option (PcRead × Nat) := do
  let (addressDelta, pos) ← readAt read data pos
  if addressDelta < 0 then some (.terminator, pos)
  else do
    let (lineDeltaRaw, pos) ← readAt read data pos
    let (columnDelta, pos) ← readAt read data pos
    let pos ← skipFields read data (envFields version) pos
    if lineDeltaRaw % 2 ≠ 0 then do
      let (statementDelta, pos) ← readAt read data pos
      some (.entry ⟨addressDelta, lineDeltaRaw >>> (1 : Nat), columnDelta, statementDelta⟩, pos)
    else some (.entry ⟨addressDelta, lineDeltaRaw >>> (1 : Nat), columnDelta, 0⟩, pos)

/-- The inner loop. The fuel is what `locations` may still grow by. -/
def pcLoop : Nat → Nat → SourceCursor → List SourceLocation →
    List SourceLocation × StreamExit × Nat
  | 0, pos, _, locations => (locations, .cap, pos)
  | fuel + 1, pos, cur, locations =>
    match readPc read data version pos with
    | none => (locations, .truncated, pos)
    | some (.terminator, next) => (locations, .terminator, next)
    | some (.entry e, next) =>
      pcLoop fuel next (cur.advance e) (locations ++ [(cur.advance e).location])

/-- The header of a function. A negative index ends the walk. -/
def readSourceHeader (pos : Nat) : Option (SourceHeader × Nat) := do
  let (functionIndex, pos) ← readAt read data pos
  if functionIndex < 0 then none
  else do
    let (startLine, pos) ← readAt read data pos
    let (startColumn, pos) ← readAt read data pos
    some (⟨functionIndex, startLine, startColumn⟩, pos)

/-- A function of the walk: where its header begins, what is returned for it, and how and
where the loop over its entries ended. -/
structure Visit where
  start : Nat
  info : FunctionSourceInfo
  streamExit : StreamExit
  stop : Nat

/-- The function whose header `h` at `start` ends at `pos`. -/
def visit (start : Nat) (h : SourceHeader) (pos : Nat) : Visit :=
  let (locations, streamExit, stop) :=
    pcLoop read data version sourceLocationsMaxPcEntries pos h.cursor []
  { start := start
    info :=
      { functionIndex := h.functionIndex.toNat
        startLine := clampI32 h.startLine
        startColumn := clampI32 h.startColumn
        locations := locations
        corrupt := streamExit = .truncated }
    streamExit := streamExit
    stop := stop }

/-- The outer loop. The fuel is what `functions` may still grow by. -/
def walk : Nat → Nat → List Visit
  | 0, _ => []
  | fuel + 1, pos =>
    if pos < data.length then
      match readSourceHeader read data pos with
      | none => []
      | some (h, next) =>
        let v := visit read data version pos h next
        v :: if v.info.corrupt then [] else walk fuel v.stop
    else []

def decodeSourceLocations : Option (List FunctionSourceInfo) :=
  if data = [] then none
  else
    let functions := (walk read data version sourceLocationsMaxFunctions 0).map Visit.info
    if functions = [] then none else some functions

end

/-! ## The stream -/

section

variable (read : List UInt8 → Nat → Option (Int × Nat)) (data : List UInt8) (version : Nat)

/-- Whole entries stand in a row from `pos` up to `stop`. -/
inductive Entries : Nat → List PcEntry → Nat → Prop
  | nil (pos : Nat) : Entries pos [] pos
  | cons {pos next stop : Nat} {e : PcEntry} {es : List PcEntry}
      (hread : readPc read data version pos = some (.entry e, next)) (hrest : Entries next es stop) :
      Entries pos (e :: es) stop

/-- The stream of a function from `pos` on: its entries, and the position behind its
terminator. -/
def Terminated (pos : Nat) (es : List PcEntry) (stop : Nat) : Prop :=
  ∃ last, Entries read data version pos es last ∧
    readPc read data version last = some (.terminator, stop)

/-- The locations of the entries. -/
def SourceCursor.locate (cur : SourceCursor) : List PcEntry → List SourceLocation
  | [] => []
  | e :: es => (cur.advance e).location :: (cur.advance e).locate es

/-- What is returned for the header `h`. -/
def SourceHeader.Describes (h : SourceHeader) (info : FunctionSourceInfo) : Prop :=
  info.functionIndex = h.functionIndex.toNat ∧ info.startLine = clampI32 h.startLine ∧
    info.startColumn = clampI32 h.startColumn

/-- Every function is read from a header that begins at `pos` or right behind the
terminator of the function before it; where the stream was not consumed up to its
terminator the function is marked corrupt, and is the last one. -/
inductive Genuine : Nat → List Visit → Prop
  | nil (pos : Nat) : Genuine pos []
  | last {pos next : Nat} {v : Visit} {h : SourceHeader} (hstart : v.start = pos)
      (hheader : readSourceHeader read data pos = some (h, next)) (hinfo : h.Describes v.info)
      (hexit : v.streamExit ≠ .terminator) (hcorrupt : v.info.corrupt = true) : Genuine pos [v]
  | next {pos next : Nat} {v : Visit} {vs : List Visit} {h : SourceHeader} {es : List PcEntry}
      (hstart : v.start = pos) (hheader : readSourceHeader read data pos = some (h, next))
      (hinfo : h.Describes v.info) (hexit : v.streamExit = .terminator)
      (hcorrupt : v.info.corrupt = false) (hstream : Terminated read data version next es v.stop)
      (hlocations : v.info.locations = h.cursor.locate es) (hrest : Genuine v.stop vs) :
      Genuine pos (v :: vs)

/-- The `k`-th function of the stream begins at `pos`. -/
inductive FunctionAt : Nat → Nat → Prop
  | first : FunctionAt 0 0
  | next {k pos next stop : Nat} {h : SourceHeader} {es : List PcEntry} (hat : FunctionAt k pos)
      (hin : pos < data.length) (hheader : readSourceHeader read data pos = some (h, next))
      (hstream : Terminated read data version next es stop) : FunctionAt (k + 1) stop

/-- No function that is walked has as many whole entries as the cap. -/
def StreamsFit : Prop :=
  ∀ k pos, k < sourceLocationsMaxFunctions → FunctionAt read data version k pos →
    pos < data.length → ∀ h next, readSourceHeader read data pos = some (h, next) →
      ∀ es stop, Entries read data version next es stop → es.length < sourceLocationsMaxPcEntries

end

/-! ## The inner loop -/

section

variable {read : List UInt8 → Nat → Option (Int × Nat)} {data : List UInt8} {version : Nat}

/-- The three ways in which the inner loop ends. -/
theorem pcLoop_cases (fuel pos : Nat) (cur : SourceCursor) (locations : List SourceLocation) :
    ∃ es last, Entries read data version pos es last ∧
      ((∃ stop, readPc read data version last = some (.terminator, stop) ∧ es.length < fuel ∧
          pcLoop read data version fuel pos cur locations =
            (locations ++ cur.locate es, .terminator, stop)) ∨
        (readPc read data version last = none ∧ es.length < fuel ∧
          pcLoop read data version fuel pos cur locations =
            (locations ++ cur.locate es, .truncated, last)) ∨
        (es.length = fuel ∧
          pcLoop read data version fuel pos cur locations =
            (locations ++ cur.locate es, .cap, last))) := by
  induction fuel generalizing pos cur locations with
  | zero => exact ⟨[], pos, .nil pos, Or.inr (Or.inr ⟨rfl, by simp [pcLoop, SourceCursor.locate]⟩)⟩
  | succ fuel ih =>
    rcases hread : readPc read data version pos with _ | ⟨_ | e, next⟩
    · exact ⟨[], pos, .nil pos, Or.inr (Or.inl ⟨hread, Nat.succ_pos fuel,
        by simp [pcLoop, hread, SourceCursor.locate]⟩)⟩
    · exact ⟨[], pos, .nil pos, Or.inl ⟨next, hread, Nat.succ_pos fuel,
        by simp [pcLoop, hread, SourceCursor.locate]⟩⟩
    · obtain ⟨es, last, hentries, hcases⟩ :=
        ih next (cur.advance e) (locations ++ [(cur.advance e).location])
      have hloop : pcLoop read data version (fuel + 1) pos cur locations =
          pcLoop read data version fuel next (cur.advance e)
            (locations ++ [(cur.advance e).location]) := by
        rw [pcLoop, hread]
      have hlocate : locations ++ cur.locate (e :: es) =
          locations ++ [(cur.advance e).location] ++ (cur.advance e).locate es := by
        rw [List.append_assoc]
        rfl
      refine ⟨e :: es, last, .cons hread hentries, ?_⟩
      rw [hloop, hlocate, List.length_cons]
      rcases hcases with ⟨stop, hstop, hlen, heq⟩ | ⟨hnone, hlen, heq⟩ | ⟨hlen, heq⟩
      · exact Or.inl ⟨stop, hstop, by omega, heq⟩
      · exact Or.inr (Or.inl ⟨hnone, by omega, heq⟩)
      · exact Or.inr (Or.inr ⟨by omega, heq⟩)

/-- Entries at one position: one list goes on where the other one stops. -/
theorem Entries.split {pos stop last : Nat} {es fs : List PcEntry}
    (h : Entries read data version pos es stop) (h' : Entries read data version pos fs last)
    (hlen : es.length ≤ fs.length) :
    ∃ rest, fs = es ++ rest ∧ Entries read data version stop rest last := by
  induction h generalizing fs with
  | nil pos => exact ⟨fs, rfl, h'⟩
  | cons hread _ ih =>
    cases h' with
    | nil => simp at hlen
    | cons hread' hrest' =>
      rw [hread, Option.some.injEq, Prod.mk.injEq, PcRead.entry.injEq] at hread'
      obtain ⟨rfl, rfl⟩ := hread'
      obtain ⟨rest, rfl, hrest⟩ := ih hrest' (by simpa using hlen)
      exact ⟨rest, rfl, hrest⟩

/-- Past an entry that cannot be read there is none. -/
theorem Entries.length_le {pos stop last : Nat} {es fs : List PcEntry}
    (h : Entries read data version pos es stop) (h' : Entries read data version pos fs last)
    (hend : ∀ e next, readPc read data version stop ≠ some (.entry e, next)) :
    fs.length ≤ es.length := by
  by_contra hlt
  obtain ⟨rest, rfl, hrest⟩ := h.split h' (by omega)
  cases hrest with
  | nil => simp at hlt
  | cons hread _ => exact hend _ _ hread

theorem Entries.unique {pos stop last : Nat} {es fs : List PcEntry}
    (h : Entries read data version pos es stop) (h' : Entries read data version pos fs last)
    (hend : ∀ e next, readPc read data version stop ≠ some (.entry e, next))
    (hend' : ∀ e next, readPc read data version last ≠ some (.entry e, next)) :
    es = fs ∧ stop = last := by
  have hle := h.length_le h' hend
  obtain ⟨rest, rfl, hrest⟩ := h.split h' (h'.length_le h hend')
  cases hrest with
  | nil => exact ⟨(List.append_nil es).symm, rfl⟩
  | cons _ _ => simp at hle

theorem Terminated.unique {pos stop stop' : Nat} {es fs : List PcEntry}
    (h : Terminated read data version pos es stop) (h' : Terminated read data version pos fs stop') :
    es = fs ∧ stop = stop' := by
  obtain ⟨last, hes, hstop⟩ := h
  obtain ⟨last', hfs, hstop'⟩ := h'
  obtain ⟨heq, rfl⟩ := hes.unique hfs (fun e next heq => by rw [hstop] at heq; cases heq)
    fun e next heq => by rw [hstop'] at heq; cases heq
  rw [hstop, Option.some.injEq, Prod.mk.injEq] at hstop'
  exact ⟨heq, hstop'.2⟩

/-- A terminated stream does not break off. -/
theorem Terminated.not_truncated {pos stop last : Nat} {es fs : List PcEntry}
    (h : Terminated read data version pos es stop) (h' : Entries read data version pos fs last) :
    readPc read data version last ≠ none := by
  intro hnone
  obtain ⟨last', hes, hstop⟩ := h
  obtain ⟨-, rfl⟩ := hes.unique h' (fun e next heq => by rw [hstop] at heq; cases heq)
    fun e next heq => by rw [hnone] at heq; cases heq
  rw [hnone] at hstop
  cases hstop

/-! ## The outer loop -/

@[simp] theorem visit_start (pos next : Nat) (h : SourceHeader) :
    (visit read data version pos h next).start = pos := rfl

theorem visit_describes (pos next : Nat) (h : SourceHeader) :
    h.Describes (visit read data version pos h next).info := ⟨rfl, rfl, rfl⟩

/-- The three ways in which the loop over the entries of a visited function ends. -/
theorem visit_cases (pos next : Nat) (h : SourceHeader) :
    (∃ es, es.length < sourceLocationsMaxPcEntries ∧
        Terminated read data version next es (visit read data version pos h next).stop ∧
        (visit read data version pos h next).streamExit = .terminator ∧
        (visit read data version pos h next).info.corrupt = false ∧
        (visit read data version pos h next).info.locations = h.cursor.locate es) ∨
      ((∃ es last, es.length < sourceLocationsMaxPcEntries ∧
          Entries read data version next es last ∧ readPc read data version last = none) ∧
        (visit read data version pos h next).streamExit = .truncated ∧
        (visit read data version pos h next).info.corrupt = true) ∨
      ((∃ es last, es.length = sourceLocationsMaxPcEntries ∧ Entries read data version next es last) ∧
        (visit read data version pos h next).streamExit = .cap ∧
        (visit read data version pos h next).info.corrupt = false) := by
  obtain ⟨es, last, hentries, ⟨stop, hstop, hlen, heq⟩ | ⟨hnone, hlen, heq⟩ | ⟨hlen, heq⟩⟩ :=
    @pcLoop_cases read data version sourceLocationsMaxPcEntries next h.cursor []
  · refine Or.inl ⟨es, hlen, ⟨last, hentries, ?_⟩, ?_, ?_, ?_⟩ <;> simp [visit, heq, hstop]
  · refine Or.inr (Or.inl ⟨⟨es, last, hlen, hentries, hnone⟩, ?_, ?_⟩) <;> simp [visit, heq]
  · refine Or.inr (Or.inr ⟨⟨es, last, hlen, hentries⟩, ?_, ?_⟩) <;> simp [visit, heq]

theorem walk_succ {fuel pos next : Nat} {h : SourceHeader} (hin : pos < data.length)
    (hheader : readSourceHeader read data pos = some (h, next)) :
    walk read data version (fuel + 1) pos = visit read data version pos h next ::
      if (visit read data version pos h next).info.corrupt then []
      else walk read data version fuel (visit read data version pos h next).stop := by
  rw [walk, if_pos hin, hheader]

theorem walk_genuine (hfit : StreamsFit read data version) (fuel k pos : Nat)
    (hk : k + fuel = sourceLocationsMaxFunctions) (hat : FunctionAt read data version k pos) :
    Genuine read data version pos (walk read data version fuel pos) := by
  induction fuel generalizing k pos with
  | zero => exact .nil pos
  | succ fuel ih =>
    by_cases hin : pos < data.length
    · rcases hheader : readSourceHeader read data pos with _ | ⟨h, next⟩
      · rw [walk, if_pos hin, hheader]
        exact .nil pos
      · rw [walk_succ hin hheader]
        rcases @visit_cases read data version pos next h with
          ⟨es, -, hstream, hexit, hcorrupt, hlocations⟩ | ⟨-, hexit, hcorrupt⟩ |
          ⟨⟨es, last, hlen, hentries⟩, -, -⟩
        · have hrest := ih (k + 1) _ (by omega) (.next hat hin hheader hstream)
          rw [if_neg (by simp [hcorrupt])]
          exact .next rfl hheader (visit_describes pos next h) hexit hcorrupt hstream hlocations hrest
        · rw [if_pos hcorrupt]
          exact .last rfl hheader (visit_describes pos next h) (by rw [hexit]; decide) hcorrupt
        · exact absurd (hfit k pos (by omega) hat hin h next hheader es last hentries) (by omega)
    · rw [walk, if_neg hin]
      exact .nil pos

/-- The first function of a genuine walk is read up to its terminator, or its stream breaks
off before the cap. -/
theorem Genuine.visit {fuel pos next : Nat} {h : SourceHeader} (hin : pos < data.length)
    (hheader : readSourceHeader read data pos = some (h, next))
    (hgenuine : Genuine read data version pos (walk read data version (fuel + 1) pos)) :
    (∃ es, es.length < sourceLocationsMaxPcEntries ∧
        Terminated read data version next es (Hermes.visit read data version pos h next).stop ∧
        Genuine read data version (Hermes.visit read data version pos h next).stop
          (walk read data version fuel (Hermes.visit read data version pos h next).stop)) ∨
      ∃ es last, es.length < sourceLocationsMaxPcEntries ∧
        Entries read data version next es last ∧ readPc read data version last = none := by
  rw [walk_succ hin hheader] at hgenuine
  rcases @visit_cases read data version pos next h with
    ⟨es, hlen, hstream, hexit, hcorrupt, -⟩ | ⟨hbroken, -, -⟩ | ⟨-, hexit, hcorrupt⟩
  · rw [if_neg (by simp [hcorrupt])] at hgenuine
    refine Or.inl ⟨es, hlen, hstream, ?_⟩
    generalize walk read data version fuel
      (Hermes.visit read data version pos h next).stop = vs at hgenuine ⊢
    cases hgenuine with
    | last _ _ _ hexit' _ => exact absurd hexit hexit'
    | next _ _ _ _ _ _ _ hrest => exact hrest
  · exact Or.inr hbroken
  · rw [if_neg (by simp [hcorrupt])] at hgenuine
    generalize walk read data version fuel
      (Hermes.visit read data version pos h next).stop = vs at hgenuine
    cases hgenuine with
    | last _ _ _ _ hcorrupt' =>
      rw [hcorrupt] at hcorrupt'
      cases hcorrupt'
    | next _ _ _ hexit' _ _ _ _ =>
      rw [hexit] at hexit'
      cases hexit'

theorem walk_nil (fuel pos : Nat) : walk read [] version fuel pos = [] := by
  cases fuel with
  | zero => rfl
  | succ fuel => rw [walk, if_neg (by simp)]

/-- A genuine walk comes to every function of the stream. -/
theorem genuine_at (h : Genuine read data version 0
      (walk read data version sourceLocationsMaxFunctions 0)) {k pos : Nat}
    (hat : FunctionAt read data version k pos) (hk : k ≤ sourceLocationsMaxFunctions) :
    Genuine read data version pos (walk read data version (sourceLocationsMaxFunctions - k) pos) := by
  induction hat with
  | first => exact h
  | @next k pos next stop hd es hat hin hheader hstream ih =>
    have hfuel : sourceLocationsMaxFunctions - k = sourceLocationsMaxFunctions - (k + 1) + 1 := by
      omega
    have hgenuine := ih (by omega)
    rw [hfuel] at hgenuine
    rcases hgenuine.visit hin hheader with ⟨fs, -, hstream', hrest⟩ | ⟨fs, last, -, hfs, hnone⟩
    · rw [(hstream.unique hstream').2]
      exact hrest
    · exact absurd hnone (hstream.not_truncated hfs)

theorem streamsFit_of_genuine (h : Genuine read data version 0
      (walk read data version sourceLocationsMaxFunctions 0)) : StreamsFit read data version := by
  intro k pos hk hat hin hd next hheader es stop hentries
  have hfuel : sourceLocationsMaxFunctions - k = sourceLocationsMaxFunctions - (k + 1) + 1 := by
    omega
  have hgenuine := genuine_at h hat (by omega)
  rw [hfuel] at hgenuine
  rcases hgenuine.visit hin hheader with ⟨fs, hlen, ⟨last, hfs, hterm⟩, -⟩ | ⟨fs, last, hlen, hfs, hnone⟩
  · have := hfs.length_le hentries fun e next heq => by rw [hterm] at heq; cases heq
    omega
  · have := hfs.length_le hentries fun e next heq => by rw [hnone] at heq; cases heq
    omega

/-- Every returned function is genuine exactly when no function has as many entries as the
cap: the exit at the cap leaves the cursor inside the stream and no mark. -/
theorem decodeSourceLocations_genuine_iff (read : List UInt8 → Nat → Option (Int × Nat))
    (data : List UInt8) (version : Nat) :
    (decodeSourceLocations read data version).getD [] =
        (walk read data version sourceLocationsMaxFunctions 0).map Visit.info ∧
      (Genuine read data version 0 (walk read data version sourceLocationsMaxFunctions 0) ↔
        StreamsFit read data version) := by
  refine ⟨?_, streamsFit_of_genuine, fun hfit => walk_genuine hfit _ 0 0 (Nat.zero_add _) .first⟩
  by_cases hempty : data = []
  · rw [decodeSourceLocations, if_pos hempty, hempty, walk_nil]
    rfl
  · simp only [decodeSourceLocations, if_neg hempty]
    by_cases hnil : (walk read data version sourceLocationsMaxFunctions 0).map Visit.info = []
    · rw [if_pos hnil, hnil, Option.getD_none]
    · rw [if_neg hnil, Option.getD_some]

end

/-! ## A stream beyond the cap -/

/-- A signed LEB128 number of at most five bytes: the value of the bytes from `pos` on, of
which `done` have been read. -/
def readSleb128From (data : List UInt8) : Nat → Nat → Nat → Int → Option (Int × Nat)
  | 0, _, _, _ => none
  | fuel + 1, pos, done, value => do
    let byte ← data[pos]?
    let low := byte.toNat % 128
    let total := value + low * 2 ^ (7 * done)
    if byte.toNat ≥ 128 then readSleb128From data fuel (pos + 1) (done + 1) total
    else
      let signed := if low ≥ 64 then total - 2 ^ (7 * (done + 1)) else total
      if -2 ^ 31 ≤ signed ∧ signed < 2 ^ 31 then some (signed, done + 1) else none

def readSleb128 (data : List UInt8) (pos : Nat) : Option (Int × Nat) :=
  readSleb128From data 5 pos 0 0

/-- A header of zeros, as many entries of zeros as the cap, and three zeros more. -/
def zeroStream : List UInt8 := List.replicate (6 + 3 * sourceLocationsMaxPcEntries) 0

theorem readAt_zeroStream {pos : Nat} (h : pos < 6 + 3 * sourceLocationsMaxPcEntries) :
    readAt readSleb128 zeroStream pos = some (0, pos + 1) := by
  have hcap : sourceLocationsMaxPcEntries = 1048576 := rfl
  have hbyte : zeroStream[pos]? = some 0 := by
    rw [zeroStream, List.getElem?_replicate, if_pos h]
  have hread : readSleb128 zeroStream pos = some (0, 1) := by
    simp [readSleb128, readSleb128From, hbyte]
  have hsum : saturatingAddU64 pos 1 = pos + 1 := by
    rw [saturatingAddU64, u64Max, Nat.min_eq_left (by omega)]
  rw [readAt, hread, Option.map_some, hsum]

theorem readPc_zeroStream {pos : Nat} (h : pos + 2 < 6 + 3 * sourceLocationsMaxPcEntries) :
    readPc readSleb128 zeroStream 97 pos = some (.entry ⟨0, 0, 0, 0⟩, pos + 3) := by
  have hfields : envFields 97 = 0 := by decide
  simp only [readPc, readAt_zeroStream (show pos < _ by omega),
    readAt_zeroStream (show pos + 1 < _ by omega), readAt_zeroStream h, hfields, skipFields,
    Option.bind_eq_bind, Option.bind_some]
  rfl

theorem entries_zeroStream (n : Nat) :
    ∀ {pos : Nat}, pos + 3 * n ≤ 3 + 3 * sourceLocationsMaxPcEntries →
      Entries readSleb128 zeroStream 97 pos (List.replicate n ⟨0, 0, 0, 0⟩) (pos + 3 * n) := by
  induction n with
  | zero => exact fun _ => .nil _
  | succ n ih =>
    intro pos h
    have hrest := ih (show pos + 3 + 3 * n ≤ _ by omega)
    have hstop : pos + 3 + 3 * n = pos + 3 * (n + 1) := by omega
    rw [hstop] at hrest
    exact .cons (readPc_zeroStream (by omega)) hrest

theorem decodeSourceLocations_phantom : ¬ ∀ (data : List UInt8) (version : Nat),
    Genuine readSleb128 data version 0
      (walk readSleb128 data version sourceLocationsMaxFunctions 0) := by
  intro h
  have hfit := streamsFit_of_genuine (h zeroStream 97)
  have hcap : sourceLocationsMaxPcEntries = 1048576 := rfl
  have hheader : readSourceHeader readSleb128 zeroStream 0 = some (⟨0, 0, 0⟩, 3) := by
    simp only [readSourceHeader, readAt_zeroStream (show 0 < _ by omega),
      readAt_zeroStream (show 0 + 1 < _ by omega), readAt_zeroStream (show 0 + 1 + 1 < _ by omega),
      Option.bind_eq_bind, Option.bind_some]
    rfl
  have hin : 0 < zeroStream.length := by
    rw [zeroStream, List.length_replicate]
    omega
  have hlen := hfit 0 0 (by decide) .first hin _ _ hheader _ _
    (entries_zeroStream sourceLocationsMaxPcEntries (show 3 + _ ≤ _ by omega))
  rw [List.length_replicate] at hlen
  exact Nat.lt_irrefl _ hlen

end Hermes
