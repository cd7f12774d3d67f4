-- SUMMARY: Clean-up of generator bodies, and the steps of it that lose no work.
import DroidsawHermes.Decompile.PatternRewrite
import DroidsawHermes.Lib.Scan
import DroidsawHermes.Structure.Stmt

/-!
# Generator clean-up

`recover_generator_one_level` of `decompile/sugar.rs`, against what it may remove
from a list.
-/

namespace Hermes.Structure

open Decompile Scan

/-! ## Statements of the protocol -/

def Stmt.isOpNamed (names : List String) : Stmt → Bool
  | .op o => names.contains o.name
  | _ => false

def Stmt.isReturn : Stmt → Bool
  | .return _ => true
  | _ => false

def Stmt.isNoise (stmt : Stmt) : Bool := stmt.isOpNamed ["StartGenerator", "CompleteGenerator"]

def Stmt.isResume : Stmt → Bool
  | .assign _ o _ => o.name == "ResumeGenerator"
  | _ => false

def Stmt.isSave (stmt : Stmt) : Bool := stmt.isOpNamed ["SaveGenerator", "SaveGeneratorLong"]

/-- What the guard behind a resume holds. -/
def Stmt.completes (stmt : Stmt) : Bool := stmt.isReturn || stmt.isOpNamed ["CompleteGenerator"]

/-- The guard that is taken for the one of a resume. -/
def Stmt.isReturnGuard : Stmt → Bool
  | .ifElse _ thenBody elseBody =>
    (thenBody.length ≤ 2 && thenBody.any completes) ||
      (elseBody.length ≤ 2 && elseBody.any completes)
  | _ => false

/-- The definition of an object. -/
def objectNames : List String :=
  ["NewObjectWithBuffer", "NewObjectWithBufferLong", "HermesObjectLit"]

/-- Keys and values of a literal, behind its destination. -/
def literalPairs : List SsaOperand → List (String × SsaOperand)
  | .resolvedString key :: value :: rest => (key, value) :: literalPairs rest
  | _ :: _ :: rest => literalPairs rest
  | _ => []

def stringEntry (key : String) (pair : String × SsaOperand) : Option String :=
  if pair.1 = key then pair.2.string? else none

def varEntry (key : String) (pair : String × SsaOperand) : Option VarId :=
  if pair.1 = key then pair.2.var? else none

/-- The done flag as the pass reads it off a definition. -/
def doneFlag (op : SsaOp) : Option Bool :=
  if op.name = "HermesObjectLit" then
    match (literalPairs (op.operands.drop 1)).findSome? (stringEntry "done") with
    | some "true" => some true
    | some "false" | some "null" => some false
    | _ => none
  else
    let resolved := (op.operands.findSome? SsaOperand.string?).getD ""
    if containsText resolved "done: null" || containsText resolved "done: false" then some false
    else if containsText resolved "done: true" then some true
    else none

def storesProperty (op : SsaOp) : Bool :=
  startsWith op.name "PutOwnBySlotIdx" || startsWith op.name "PutOwnByVal"

def storesState (op : SsaOp) : Bool :=
  startsWith op.name "StoreNPToEnvironment" || startsWith op.name "StoreToEnvironment"

/-- The operation of a store that the look-ahead goes past. -/
def Stmt.store? : Stmt → Option SsaOp
  | .op o => if storesProperty o || storesState o then some o else none
  | _ => none

def Stmt.isStore (stmt : Stmt) : Bool := stmt.store?.isSome

/-- The value variable after a store. -/
def storedVar (value : Option VarId) (op : SsaOp) : Option VarId :=
  if storesProperty op then
    match op.operands[1]? with
    | some (SsaOperand.var v) => some v
    | _ => value
  else value

/-- The value variable that the pass finds for a definition and the stores behind it. -/
def valueVar (op : SsaOp) (stores : List Stmt) : Option VarId :=
  let folded := if op.name = "HermesObjectLit" then
      (literalPairs (op.operands.drop 1)).findSome? (varEntry "value")
    else none
  (stores.filterMap Stmt.store?).foldl storedVar folded

/-- What a completed cluster becomes. -/
def yieldStmt (done : Bool) (value : Option VarId) : Stmt :=
  if done then .return value
  else .comment (match value with
    | some v => "await " ++ v.display
    | none => "await")

/-! ## The pass -/

/-- What is emitted for a statement, and how many of those behind it are consumed. -/
def generatorStep (stmt : Stmt) (rest : List Stmt) : List Stmt × Nat :=
  if stmt.isNoise then ([], 0)
  else if stmt.isResume then ([], if rest.head?.any Stmt.isReturnGuard then 1 else 0)
  else if stmt.isSave then ([stmt], if rest.head?.any Stmt.isReturn then 1 else 0)
  else
    match stmt with
    | .assign _ op _ =>
      if objectNames.contains op.name then
        match doneFlag op with
        | some done =>
          let stores := rest.takeWhile Stmt.isStore
          if (rest.drop stores.length).head?.any Stmt.isReturn then
            ([yieldStmt done (valueVar op stores)], stores.length + 1)
          else if stores.length > 0 then ([], stores.length)
          else ([stmt], 0)
        | none => ([stmt], 0)
      else ([stmt], 0)
    | _ => ([stmt], 0)

def recoverGeneratorOneLevel (stmts : List Stmt) : List Stmt := scan generatorStep 0 stmts

/-! ## What may be removed -/

/-- Both branches hold nothing but the completion of the generator and returns. -/
def Stmt.onlyCompletes : Stmt → Bool
  | .ifElse _ thenBody elseBody => thenBody.all completes && elseBody.all completes
  | _ => false

def Stmt.returnsVar (obj : VarId) : Stmt → Bool
  | .return v => v == some obj
  | _ => false

/-- A store of the state, or into the object. The pass takes every store to an environment for
one of the state; `isState` says which ones are. -/
def Stmt.storesInto (isState : SsaOp → Bool) (obj : VarId) (stmt : Stmt) : Bool :=
  stmt.store?.any fun op =>
    storesState op && isState op || op.operands[0]? == some (SsaOperand.var obj)

section Spec

variable (entriesOf : String → List (String × String)) (isState : SsaOp → Bool)

/-- The entries of a defined object, where `entriesOf` reads a literal's text. -/
def objectEntries (op : SsaOp) : List (String × SsaOperand) :=
  if op.name = "HermesObjectLit" then literalPairs (op.operands.drop 1)
  else
    (entriesOf ((op.operands.findSome? SsaOperand.string?).getD "")).map
      fun pair => (pair.1, .resolvedString pair.2)

def entryOf (key : String) (entries : List (String × SsaOperand)) : Option SsaOperand :=
  (entries.find? fun pair => pair.1 = key).map Prod.snd

/-- Whether the done entry is true, when there is one with a literal. -/
def doneEntry (op : SsaOp) : Option Bool :=
  match entryOf "done" (objectEntries entriesOf op) with
  | some (.resolvedString "true") => some true
  | some (.resolvedString "false") | some (.resolvedString "null") => some false
  | _ => none

/-- The key that a store writes, unless it is computed. -/
def storeKey (entries : List (String × SsaOperand)) (op : SsaOp) : Option String :=
  match op.operands[2]? with
  | some (SsaOperand.resolvedString key) => some key
  | some (SsaOperand.const slot) =>
    if startsWith op.name "PutOwnBySlotIdx" then entries[slot.toNat]?.map Prod.fst else none
  | _ => none

/-- The value entry after a store; nothing is known after one with a computed key. -/
def storeEntry (entries : List (String × SsaOperand)) (value : Option (Option SsaOperand))
    (op : SsaOp) : Option (Option SsaOperand) :=
  if storesProperty op then
    match storeKey entries op with
    | some key => if key = "value" then some op.operands[1]? else value
    | none => none
  else value

/-- The value entry of a defined object after the stores. -/
def valueEntry (op : SsaOp) (stores : List Stmt) : Option (Option SsaOperand) :=
  (stores.filterMap Stmt.store?).foldl (storeEntry (objectEntries entriesOf op))
    (some (entryOf "value" (objectEntries entriesOf op)))

/-- A return of the variable, or of nothing, returns the entry. -/
def returnsEntry : Option (Option SsaOperand) → Option VarId → Bool
  | some none, v => v.isNone
  | some (some (.resolvedString text)), v => text == "undefined" && v.isNone
  | some (some (.var u)), v => v == some u
  | _, _ => false

/-- An object with a done entry, stores into it and its return. -/
def isYieldCluster (op : SsaOp) (stores : List Stmt) (ret : Stmt) : Bool :=
  objectNames.contains op.name && (doneEntry entriesOf op).isSome &&
    op.dst.any fun obj => stores.all (Stmt.storesInto isState obj) && ret.returnsVar obj

/-- What may stand for a cluster. -/
def Yields (op : SsaOp) (stores : List Stmt) (stmt : Stmt) : Prop :=
  match doneEntry entriesOf op with
  | some true => ∃ v, stmt = .return v ∧ returnsEntry (valueEntry entriesOf op stores) v = true
  | some false => ∃ text, stmt = .comment text
  | none => False

/-- The second list is the first one without what may be removed. Guards and definitions are
removed where `may` allows it. -/
inductive CleanedUp (may : Stmt → Bool) : List Stmt → List Stmt → Prop where
  | nil : CleanedUp may [] []
  | keep {stmt : Stmt} {rest out : List Stmt} (h : CleanedUp may rest out) :
    CleanedUp may (stmt :: rest) (stmt :: out)
  | noise {stmt : Stmt} {rest out : List Stmt} (hnoise : stmt.isNoise = true)
    (h : CleanedUp may rest out) : CleanedUp may (stmt :: rest) out
  | resume {stmt guard : Stmt} {rest out : List Stmt} (hresume : stmt.isResume = true)
    (hguard : guard.onlyCompletes = true) (hmay : may guard = true) (h : CleanedUp may rest out) :
    CleanedUp may (stmt :: guard :: rest) out
  | save {stmt ret : Stmt} {rest out : List Stmt} (hsave : stmt.isSave = true)
    (hret : ret.isReturn = true) (h : CleanedUp may rest out) :
    CleanedUp may (stmt :: ret :: rest) (stmt :: out)
  | cluster {dst : String} {op : SsaOp} {blockId : Option BlockId} {stores : List Stmt}
    {ret stmt : Stmt} {rest out : List Stmt} (hmay : may (.assign dst op blockId) = true)
    (hcluster : isYieldCluster entriesOf isState op stores ret = true)
    (hyields : Yields entriesOf op stores stmt) (h : CleanedUp may rest out) :
    CleanedUp may (.assign dst op blockId :: (stores ++ ret :: rest)) (stmt :: out)

/-- Only the protocol of the generator is removed. -/
def LosesNoWork (stmts : List Stmt) : Prop :=
  CleanedUp entriesOf isState (fun _ => true) stmts (recoverGeneratorOneLevel stmts)

/-! ## Proper steps -/

/-- The step of a definition: it stays, or a whole cluster goes and its value is returned. -/
def properDefinition (op : SsaOp) (rest : List Stmt) : Bool :=
  let stores := rest.takeWhile Stmt.isStore
  match doneFlag op, (rest.drop stores.length).head? with
  | some flag, some ret =>
    if ret.isReturn then
      isYieldCluster entriesOf isState op stores ret && doneEntry entriesOf op == some flag &&
        (!flag || returnsEntry (valueEntry entriesOf op stores) (valueVar op stores))
    else stores.isEmpty
  | some _, none => stores.isEmpty
  | none, _ => true

def properStep (stmt : Stmt) (rest : List Stmt) : Bool :=
  match stmt with
  | .assign _ op _ =>
    if op.name = "ResumeGenerator" then
      rest.head?.any fun guard => guard.isReturnGuard && guard.onlyCompletes
    else !objectNames.contains op.name || properDefinition entriesOf isState op rest
  | _ => true

/-- Every step of the pass is proper. -/
def ProperSteps (stmts : List Stmt) : Prop :=
  ∀ place ∈ visited generatorStep 0 stmts, properStep entriesOf isState place.1 place.2 = true

instance (stmts : List Stmt) : Decidable (ProperSteps entriesOf isState stmts) :=
  inferInstanceAs (Decidable (∀ place ∈ _, _))

end Spec

/-! ## The steps of the pass -/

/-- A step: the statement, what follows it, what is emitted and what is left. -/
inductive GeneratorStep : Stmt → List Stmt → List Stmt → List Stmt → Prop where
  | noise {stmt : Stmt} {rest : List Stmt} (hnoise : stmt.isNoise = true) :
    GeneratorStep stmt rest [] rest
  | guarded {stmt guard : Stmt} {rest : List Stmt} (hresume : stmt.isResume = true)
    (hguard : guard.isReturnGuard = true) : GeneratorStep stmt (guard :: rest) [] rest
  | resumed {stmt : Stmt} {rest : List Stmt} (hresume : stmt.isResume = true)
    (hguard : rest.head?.any Stmt.isReturnGuard = false) : GeneratorStep stmt rest [] rest
  | saved {stmt ret : Stmt} {rest : List Stmt} (hsave : stmt.isSave = true)
    (hret : ret.isReturn = true) : GeneratorStep stmt (ret :: rest) [stmt] rest
  | yielded {dst : String} {op : SsaOp} {blockId : Option BlockId} {flag : Bool}
    {stores : List Stmt} {ret : Stmt} {rest : List Stmt}
    (hname : objectNames.contains op.name = true) (hflag : doneFlag op = some flag)
    (hstores : stores.all Stmt.isStore = true) (hret : ret.isReturn = true) :
    GeneratorStep (.assign dst op blockId) (stores ++ ret :: rest)
      [yieldStmt flag (valueVar op stores)] rest
  | lost {dst : String} {op : SsaOp} {blockId : Option BlockId} {flag : Bool}
    {stores rest : List Stmt} (hname : objectNames.contains op.name = true)
    (hflag : doneFlag op = some flag) (hne : stores ≠ []) (hstores : stores.all Stmt.isStore = true)
    (hstop : rest.head?.any Stmt.isStore = false) (hret : rest.head?.any Stmt.isReturn = false) :
    GeneratorStep (.assign dst op blockId) (stores ++ rest) [] rest
  | kept {stmt : Stmt} {rest : List Stmt} (hnoise : stmt.isNoise = false)
    (hresume : stmt.isResume = false)
    (hsave : stmt.isSave = true → rest.head?.any Stmt.isReturn = false)
    (hdefines : ∀ dst op blockId, stmt = .assign dst op blockId → objectNames.contains op.name = true →
      (doneFlag op).isSome = true →
        rest.head?.any Stmt.isStore = false ∧ rest.head?.any Stmt.isReturn = false) :
    GeneratorStep stmt rest [stmt] rest

section Steps

theorem head?_any_eq_true {p : Stmt → Bool} {l : List Stmt} (h : l.head?.any p = true) :
    ∃ x rest, l = x :: rest ∧ p x = true := by
  cases l with
  | nil => simp at h
  | cons x rest => exact ⟨x, rest, rfl, by simpa using h⟩

theorem isStore_of_storesInto {isState : SsaOp → Bool} {obj : VarId} {stmt : Stmt}
    (h : stmt.storesInto isState obj = true) : stmt.isStore = true := by
  rw [Stmt.storesInto, Option.any_eq_true] at h
  obtain ⟨op, hop, -⟩ := h
  rw [Stmt.isStore, hop]
  rfl

theorem isReturn_of_returnsVar {obj : VarId} {stmt : Stmt} (h : stmt.returnsVar obj = true) :
    stmt.isReturn = true := by
  cases stmt <;> first | rfl | cases h

theorem not_isStore_of_isReturn {stmt : Stmt} (h : stmt.isReturn = true) : stmt.isStore = false := by
  cases stmt <;> first | rfl | cases h

/-- The run of stores in front of a statement that is none. -/
theorem takeWhile_stores {stores rest : List Stmt} (hstores : stores.all Stmt.isStore = true)
    (hstop : rest.head?.any Stmt.isStore = false) :
    (stores ++ rest).takeWhile Stmt.isStore = stores := by
  rw [List.takeWhile_append_of_pos (List.all_eq_true.mp hstores)]
  cases rest with
  | nil => simp
  | cons x rest =>
    have hx : x.isStore = false := by simpa using hstop
    simp [hx]

/-- The run of stores behind a definition, and what ends it. -/
theorem exists_stores (rest : List Stmt) : ∃ stores left, rest = stores ++ left ∧
    stores.all Stmt.isStore = true ∧ left.head?.any Stmt.isStore = false := by
  refine ⟨rest.takeWhile Stmt.isStore, rest.dropWhile Stmt.isStore,
    List.takeWhile_append_dropWhile.symm, List.all_takeWhile, ?_⟩
  cases hleft : rest.dropWhile Stmt.isStore with
  | nil => rfl
  | cons x left =>
    have hhead := List.head?_dropWhile_not Stmt.isStore rest
    rw [hleft] at hhead
    simpa using hhead

theorem definition_view {dst : String} {op : SsaOp} {blockId : Option BlockId} {flag : Bool}
    (hname : objectNames.contains op.name = true) (hflag : doneFlag op = some flag)
    (rest : List Stmt) :
    let stores := rest.takeWhile Stmt.isStore
    let result : List Stmt × Nat :=
      if (rest.drop stores.length).head?.any Stmt.isReturn then
        ([yieldStmt flag (valueVar op stores)], stores.length + 1)
      else if stores.length > 0 then ([], stores.length)
      else ([.assign dst op blockId], 0)
    GeneratorStep (.assign dst op blockId) rest result.1 (rest.drop result.2) := by
  obtain ⟨stores, left, rfl, hstores, hstop⟩ := exists_stores rest
  simp only [takeWhile_stores hstores hstop, List.drop_left]
  split
  · next hret =>
    obtain ⟨ret, left, rfl, hret⟩ := head?_any_eq_true hret
    have hdrop : (stores ++ ret :: left).drop (stores.length + 1) = left := by
      rw [List.drop_append]
      simp
    rw [hdrop]
    exact .yielded hname hflag hstores hret
  next hret =>
  have hret : left.head?.any Stmt.isReturn = false := by simpa using hret
  split
  · next hlength =>
    rw [List.drop_left]
    exact .lost hname hflag (List.ne_nil_of_length_pos hlength) hstores hstop hret
  · next hlength =>
    have hnil : stores = [] := List.eq_nil_of_length_eq_zero (by omega)
    subst hnil
    refine .kept rfl ?_ (fun h => by cases h) fun _ _ _ heq _ _ => ?_
    · rw [List.contains_iff_mem] at hname
      have hne : ∀ name ∈ objectNames, (name == "ResumeGenerator") = false := by decide
      exact hne _ hname
    · exact ⟨hstop, hret⟩

theorem generatorStep_view (stmt : Stmt) (rest : List Stmt) :
    GeneratorStep stmt rest (generatorStep stmt rest).1 (rest.drop (generatorStep stmt rest).2) := by
  unfold generatorStep
  split
  · next hnoise => exact .noise hnoise
  next hnoise =>
  split
  · next hresume =>
    cases hguard : rest.head?.any Stmt.isReturnGuard with
    | true =>
      obtain ⟨guard, rest, rfl, hguard⟩ := head?_any_eq_true hguard
      exact .guarded hresume hguard
    | false => exact .resumed hresume hguard
  next hresume =>
  split
  · next hsave =>
    cases hret : rest.head?.any Stmt.isReturn with
    | true =>
      obtain ⟨ret, rest, rfl, hret⟩ := head?_any_eq_true hret
      exact .saved hsave hret
    | false =>
      refine .kept (by simpa using hnoise) (by simpa using hresume) (fun _ => hret) ?_
      rintro dst op blockId rfl
      cases hsave
  next hsave =>
  have hkept : ∀ rest : List Stmt, (∀ dst op blockId, stmt = .assign dst op blockId →
      objectNames.contains op.name = true → (doneFlag op).isSome = true →
        rest.head?.any Stmt.isStore = false ∧ rest.head?.any Stmt.isReturn = false) →
      GeneratorStep stmt rest [stmt] rest :=
    fun rest => .kept (by simpa using hnoise) (by simpa using hresume) fun h => absurd h hsave
  split
  · next dst op blockId =>
    split
    · next hname =>
      split
      · next flag hflag =>
        exact definition_view hname hflag rest
      · next hflag =>
        refine hkept rest fun _ _ _ heq _ hsome => ?_
        cases heq
        rw [hflag] at hsome
        cases hsome
    · next hname =>
      refine hkept rest fun _ _ _ heq hname' _ => ?_
      cases heq
      exact absurd hname' hname
  · next hother => exact hkept rest fun dst op blockId heq _ _ => absurd heq (hother dst op blockId)

/-! ## Lengths -/

/-- How many statements the pass leaves. -/
def cleanedLength (stmts : List Stmt) : Nat := (recoverGeneratorOneLevel stmts).length

/-- A statement that every step keeps. -/
def Stmt.Inert (stmt : Stmt) : Prop := ∀ rest, generatorStep stmt rest = ([stmt], 0)

theorem inert_of_isReturn {stmt : Stmt} (h : stmt.isReturn = true) : stmt.Inert := by
  intro rest
  cases stmt <;> first | rfl | cases h

theorem inert_of_isReturnGuard {stmt : Stmt} (h : stmt.isReturnGuard = true) : stmt.Inert := by
  intro rest
  cases stmt <;> first | rfl | cases h

/-- The names of the protocol are no stores. -/
theorem not_stores_protocol : ∀ name ∈ ["StartGenerator", "CompleteGenerator", "SaveGenerator",
    "SaveGeneratorLong"], ∀ name' ∈ ["PutOwnBySlotIdx", "PutOwnByVal", "StoreNPToEnvironment",
      "StoreToEnvironment"], startsWith name name' = false := by
  decide

theorem inert_of_isStore {stmt : Stmt} (h : stmt.isStore = true) : stmt.Inert := by
  intro rest
  cases stmt with
  | op op =>
    have hstores : (storesProperty op || storesState op) = true := by
      rw [Stmt.isStore, Stmt.store?] at h
      by_contra hne
      rw [if_neg hne] at h
      cases h
    have hname : op.name ∉ ["StartGenerator", "CompleteGenerator", "SaveGenerator",
        "SaveGeneratorLong"] := by
      intro hmem
      have hno := not_stores_protocol op.name hmem
      simp only [storesProperty, storesState, hno _ (.head _), hno _ (.tail _ (.head _)),
        hno _ (.tail _ (.tail _ (.head _))), hno _ (.tail _ (.tail _ (.tail _ (.head _)))),
        Bool.or_self, Bool.false_eq_true] at hstores
    simp only [List.mem_cons, List.not_mem_nil, or_false, not_or] at hname
    simp [generatorStep, Stmt.isNoise, Stmt.isSave, Stmt.isOpNamed, Stmt.isResume, hname]
  | _ => cases h

theorem cleanedLength_append {kept : List Stmt} (h : ∀ stmt ∈ kept, stmt.Inert)
    (rest : List Stmt) : cleanedLength (kept ++ rest) = kept.length + cleanedLength rest := by
  rw [cleanedLength, recoverGeneratorOneLevel, scan_append_of_kept rest h, List.length_append]
  rfl

theorem recover_cons (stmt : Stmt) (rest : List Stmt) :
    recoverGeneratorOneLevel (stmt :: rest) = (generatorStep stmt rest).1 ++
      recoverGeneratorOneLevel (rest.drop (generatorStep stmt rest).2) :=
  scan_cons generatorStep stmt rest

/-- What a step consumes would stay without it. -/
theorem GeneratorStep.consumed {stmt : Stmt} {rest emitted left : List Stmt}
    (h : GeneratorStep stmt rest emitted left) : ∃ consumed, rest = consumed ++ left ∧
      (∀ stmt ∈ consumed, stmt.Inert) ∧ emitted.length ≤ 1 := by
  cases h with
  | noise hnoise => exact ⟨[], rfl, by simp, Nat.zero_le 1⟩
  | @guarded _ guard _ hresume hguard =>
    refine ⟨[guard], rfl, ?_, Nat.zero_le 1⟩
    simpa using inert_of_isReturnGuard hguard
  | resumed hresume hguard => exact ⟨[], rfl, by simp, Nat.zero_le 1⟩
  | @saved _ ret _ hsave hret =>
    refine ⟨[ret], rfl, ?_, Nat.le_refl 1⟩
    simpa using inert_of_isReturn hret
  | @yielded _ _ _ _ stores ret _ hname hflag hstores hret =>
    refine ⟨stores ++ [ret], by simp, ?_, Nat.le_refl 1⟩
    intro x hx
    rcases List.mem_append.mp hx with hx | hx
    · exact inert_of_isStore (List.all_eq_true.mp hstores x hx)
    · rw [List.mem_singleton.mp hx]
      exact inert_of_isReturn hret
  | @lost _ _ _ _ stores _ hname hflag hne hstores hstop hret =>
    exact ⟨stores, rfl, fun x hx => inert_of_isStore (List.all_eq_true.mp hstores x hx),
      Nat.zero_le 1⟩
  | kept hnoise hresume hsave hdefines => exact ⟨[], rfl, by simp, Nat.le_refl 1⟩

/-- One more statement in front adds at most one. -/
theorem cleanedLength_cons_le (stmt : Stmt) (rest : List Stmt) :
    cleanedLength (stmt :: rest) ≤ cleanedLength rest + 1 := by
  obtain ⟨consumed, hrest, hinert, hlength⟩ := (generatorStep_view stmt rest).consumed
  have hsum := cleanedLength_append hinert (rest.drop (generatorStep stmt rest).2)
  rw [← hrest] at hsum
  rw [cleanedLength, recover_cons, List.length_append, hsum, ← cleanedLength]
  omega

/-- It adds one where the step keeps it and consumes nothing. -/
theorem kept_of_cleanedLength {stmt : Stmt} {rest : List Stmt}
    (h : cleanedLength (stmt :: rest) = cleanedLength rest + 1) :
    (generatorStep stmt rest).1 = [stmt] ∧ rest.drop (generatorStep stmt rest).2 = rest ∧
      stmt.isResume = false ∧
      ∀ dst op blockId, stmt = .assign dst op blockId → objectNames.contains op.name = true →
        (doneFlag op).isSome = true →
          rest.head?.any Stmt.isStore = false ∧ rest.head?.any Stmt.isReturn = false := by
  have hview := generatorStep_view stmt rest
  obtain ⟨consumed, hrest, hinert, hlength⟩ := hview.consumed
  have hsum := cleanedLength_append hinert (rest.drop (generatorStep stmt rest).2)
  have hlen := congrArg List.length hrest
  rw [← hrest] at hsum
  rw [cleanedLength, recover_cons, List.length_append, hsum, ← cleanedLength] at h
  rw [List.length_append] at hlen
  have hone : (generatorStep stmt rest).1.length = 1 := by omega
  have hleft : rest.drop (generatorStep stmt rest).2 = rest := by
    have hnil : consumed = [] := List.eq_nil_of_length_eq_zero (by omega)
    rw [hnil] at hrest
    exact hrest.symm
  generalize (generatorStep stmt rest).1 = emitted at hview hone
  generalize rest.drop (generatorStep stmt rest).2 = left at hview hleft
  cases hview with
  | kept hnoise hresume hsave hdefines => exact ⟨rfl, rfl, hresume, hdefines⟩
  | saved => simp at hleft
  | yielded =>
    have hlen := congrArg List.length hleft
    simp only [List.length_append, List.length_cons] at hlen
    omega
  | _ => simp at hone

/-! ## Detection -/

/-- A guard or a definition that the pass never takes. -/
def Stmt.undetected : Stmt → Bool
  | .ifElse cond thenBody elseBody => !(Stmt.ifElse cond thenBody elseBody).isReturnGuard
  | .assign _ o _ => objectNames.contains o.name && (doneFlag o).isNone
  | _ => false

/-- A guard or a definition that the pass can take. -/
def Stmt.detected : Stmt → Bool
  | .ifElse cond thenBody elseBody => (Stmt.ifElse cond thenBody elseBody).isReturnGuard
  | .assign _ o _ => (doneFlag o).isSome
  | _ => true

theorem not_undetected_of_isStore {stmt : Stmt} (h : stmt.isStore = true) :
    stmt.undetected = false := by
  cases stmt <;> first | rfl | cases h

theorem not_undetected_of_isReturn {stmt : Stmt} (h : stmt.isReturn = true) :
    stmt.undetected = false := by
  cases stmt <;> first | rfl | cases h

theorem not_undetected_of_isOpNamed {stmt : Stmt} {names : List String}
    (h : stmt.isOpNamed names = true) : stmt.undetected = false := by
  cases stmt <;> first | rfl | cases h

theorem not_undetected_of_isResume {stmt : Stmt} (h : stmt.isResume = true) :
    stmt.undetected = false := by
  cases stmt with
  | assign dst op blockId =>
    have hname : op.name = "ResumeGenerator" := by simpa [Stmt.isResume] using h
    simp [Stmt.undetected, hname, objectNames]
  | _ => cases h

theorem not_undetected_of_isReturnGuard {stmt : Stmt} (h : stmt.isReturnGuard = true) :
    stmt.undetected = false := by
  cases stmt with
  | ifElse cond thenBody elseBody => rw [Stmt.undetected, h, Bool.not_true]
  | _ => cases h

theorem not_undetected_of_doneFlag {dst : String} {op : SsaOp} {blockId : Option BlockId}
    {flag : Bool} (h : doneFlag op = some flag) :
    (Stmt.assign dst op blockId).undetected = false := by
  simp [Stmt.undetected, h]

theorem not_undetected_yieldStmt (flag : Bool) (value : Option VarId) :
    (yieldStmt flag value).undetected = false := by
  cases flag <;> rfl

theorem countP_undetected_stores {stores : List Stmt} (h : stores.all Stmt.isStore = true) :
    stores.countP Stmt.undetected = 0 := by
  rw [List.countP_eq_zero]
  intro stmt hstmt
  simp [not_undetected_of_isStore (List.all_eq_true.mp h stmt hstmt)]

/-- The pass keeps what it does not take. -/
theorem countP_undetected_recover (stmts : List Stmt) :
    (recoverGeneratorOneLevel stmts).countP Stmt.undetected = stmts.countP Stmt.undetected := by
  induction stmts using scan_induction generatorStep with
  | nil => rfl
  | cons stmt rest ih =>
    have hview := generatorStep_view stmt rest
    have hrec : recoverGeneratorOneLevel (stmt :: rest) = _ := scan_cons generatorStep stmt rest
    rw [hrec, List.countP_append]
    have hleft : (scan generatorStep 0 (rest.drop (generatorStep stmt rest).2)).countP
        Stmt.undetected = (rest.drop (generatorStep stmt rest).2).countP Stmt.undetected := ih
    rw [hleft]
    generalize (generatorStep stmt rest).1 = emitted at hview
    generalize rest.drop (generatorStep stmt rest).2 = left at hview
    cases hview with
    | noise hnoise => simp [not_undetected_of_isOpNamed hnoise]
    | guarded hresume hguard =>
      simp [not_undetected_of_isResume hresume, not_undetected_of_isReturnGuard hguard]
    | resumed hresume hguard => simp [not_undetected_of_isResume hresume]
    | saved hsave hret => simp [not_undetected_of_isReturn hret, List.countP_cons]; omega
    | yielded hname hflag hstores hret =>
      simp [not_undetected_yieldStmt, not_undetected_of_doneFlag hflag,
        countP_undetected_stores hstores, not_undetected_of_isReturn hret]
    | lost hname hflag hne hstores hstop hret =>
      simp [not_undetected_of_doneFlag hflag, countP_undetected_stores hstores]
    | kept hnoise hresume hsave hdefines => simp [List.countP_cons]; omega

end Steps

/-! ## When no work is lost -/

section Proper

variable {entriesOf : String → List (String × String)} {isState : SsaOp → Bool}

theorem stores_of_isYieldCluster {op : SsaOp} {stores : List Stmt} {ret : Stmt}
    (h : isYieldCluster entriesOf isState op stores ret = true) :
    objectNames.contains op.name = true ∧ stores.all Stmt.isStore = true ∧ ret.isReturn = true := by
  simp only [isYieldCluster, Bool.and_eq_true, Option.any_eq_true] at h
  obtain ⟨⟨hname, -⟩, obj, -, hstores, hret⟩ := h
  refine ⟨hname, List.all_eq_true.mpr fun stmt hstmt => ?_, isReturn_of_returnsVar hret⟩
  exact isStore_of_storesInto (List.all_eq_true.mp hstores stmt hstmt)

theorem isReturnGuard_of_detected {guard : Stmt} (honly : guard.onlyCompletes = true)
    (hdetected : guard.detected = true) : guard.isReturnGuard = true := by
  cases guard <;> first | exact hdetected | cases honly

theorem not_undetected_of_yields {op : SsaOp} {stores : List Stmt} {stmt : Stmt}
    (h : Yields entriesOf op stores stmt) : stmt.undetected = false := by
  unfold Yields at h
  split at h
  · obtain ⟨v, rfl, -⟩ := h
    rfl
  · obtain ⟨text, rfl⟩ := h
    rfl
  · cases h

/-- Nothing is removed that the pass never takes, when as much of it is left. -/
theorem CleanedUp.detected {stmts out : List Stmt}
    (h : CleanedUp entriesOf isState (fun _ => true) stmts out) :
    out.countP Stmt.undetected ≤ stmts.countP Stmt.undetected ∧
      (stmts.countP Stmt.undetected ≤ out.countP Stmt.undetected →
        CleanedUp entriesOf isState Stmt.detected stmts out) := by
  induction h with
  | nil => exact ⟨Nat.le_refl 0, fun _ => .nil⟩
  | @keep stmt rest out h ih =>
    simp only [List.countP_cons]
    exact ⟨by omega, fun hle => .keep (ih.2 (by omega))⟩
  | noise hnoise h ih =>
    rw [List.countP_cons_of_neg (by simp [not_undetected_of_isOpNamed hnoise])]
    exact ⟨ih.1, fun hle => .noise hnoise (ih.2 hle)⟩
  | @resume stmt guard rest out hresume hguard hmay h ih =>
    rw [List.countP_cons_of_neg (by simp [not_undetected_of_isResume hresume]), List.countP_cons]
    refine ⟨by omega, fun hle => ?_⟩
    have hdetected : guard.detected = true := by
      cases guard with
      | ifElse cond thenBody elseBody =>
        by_contra hne
        have hundetected : (Stmt.ifElse cond thenBody elseBody).undetected = true := by
          rw [Stmt.undetected, Bool.not_eq_true']
          simpa [Stmt.detected] using hne
        rw [hundetected] at hle
        simp only [if_true] at hle
        omega
      | _ => cases hguard
    exact .resume hresume hguard hdetected (ih.2 (by omega))
  | save hsave hret h ih =>
    rw [List.countP_cons, List.countP_cons,
      List.countP_cons_of_neg (by simp [not_undetected_of_isReturn hret])]
    exact ⟨by omega, fun hle => .save hsave hret (ih.2 (by omega))⟩
  | @cluster dst op blockId stores ret stmt rest out hmay hcluster hyields h ih =>
    obtain ⟨hname, hstores, hret⟩ := stores_of_isYieldCluster hcluster
    have hcount : (stores ++ ret :: rest).countP Stmt.undetected = rest.countP Stmt.undetected := by
      simp [countP_undetected_stores hstores, not_undetected_of_isReturn hret]
    rw [List.countP_cons_of_neg (by simp [not_undetected_of_yields hyields]), List.countP_cons,
      hcount]
    refine ⟨by omega, fun hle => ?_⟩
    have hdetected : (Stmt.assign dst op blockId).detected = true := by
      by_contra hne
      have hundetected : (Stmt.assign dst op blockId).undetected = true := by
        rw [Stmt.undetected, hname, Bool.true_and]
        simpa [Stmt.detected] using hne
      rw [hundetected] at hle
      simp only [if_true] at hle
      omega
    exact .cluster hdetected hcluster hyields (ih.2 (by omega))

theorem not_isNoise_of_isResume {stmt : Stmt} (h : stmt.isResume = true) : stmt.isNoise = false := by
  cases stmt <;> first | rfl | cases h

theorem not_isNoise_of_isSave {stmt : Stmt} (h : stmt.isSave = true) :
    stmt.isNoise = false ∧ stmt.isResume = false := by
  cases stmt with
  | op op =>
    have hall : ∀ name ∈ ["SaveGenerator", "SaveGeneratorLong"],
        ["StartGenerator", "CompleteGenerator"].contains name = false := by decide
    exact ⟨hall _ (List.contains_iff_mem.mp h), rfl⟩
  | _ => cases h

theorem not_isResume_of_defines {dst : String} {op : SsaOp} {blockId : Option BlockId}
    (hname : objectNames.contains op.name = true) :
    (Stmt.assign dst op blockId).isResume = false := by
  have hne : ∀ name ∈ objectNames, (name == "ResumeGenerator") = false := by decide
  exact hne _ (List.contains_iff_mem.mp hname)

section Taken

variable (rest : List Stmt)

theorem generatorStep_noise {stmt : Stmt} (h : stmt.isNoise = true) :
    generatorStep stmt rest = ([], 0) := by
  unfold generatorStep
  rw [if_pos h]

theorem generatorStep_resume {stmt guard : Stmt} (h : stmt.isResume = true)
    (hguard : guard.isReturnGuard = true) : generatorStep stmt (guard :: rest) = ([], 1) := by
  simp [generatorStep, not_isNoise_of_isResume h, h, hguard]

theorem generatorStep_save {stmt ret : Stmt} (h : stmt.isSave = true)
    (hret : ret.isReturn = true) : generatorStep stmt (ret :: rest) = ([stmt], 1) := by
  simp [generatorStep, not_isNoise_of_isSave h, h, hret]

theorem generatorStep_cluster {dst : String} {op : SsaOp} {blockId : Option BlockId} {flag : Bool}
    {stores : List Stmt} {ret : Stmt} (hname : objectNames.contains op.name = true)
    (hflag : doneFlag op = some flag) (hstores : stores.all Stmt.isStore = true)
    (hret : ret.isReturn = true) :
    generatorStep (.assign dst op blockId) (stores ++ ret :: rest) =
      ([yieldStmt flag (valueVar op stores)], stores.length + 1) := by
  have hstop : (ret :: rest).head?.any Stmt.isStore = false := by
    simp [not_isStore_of_isReturn hret]
  have hresume := @not_isResume_of_defines dst op blockId hname
  have hnoise : (Stmt.assign dst op blockId).isNoise = false := rfl
  have hsave : (Stmt.assign dst op blockId).isSave = false := rfl
  simp only [generatorStep, hnoise, hresume, hsave, hname, hflag, takeWhile_stores hstores hstop,
    List.drop_left, List.head?_cons, Option.any_some, hret, Bool.false_eq_true, if_false, if_true]

theorem drop_cluster (stores : List Stmt) (ret : Stmt) :
    (stores ++ ret :: rest).drop (stores.length + 1) = rest := by
  rw [List.drop_append]
  simp

end Taken

/-- The pass leaves no more than any clean-up with the guards and definitions that it takes. -/
theorem cleanedLength_le {stmts out : List Stmt}
    (h : CleanedUp entriesOf isState Stmt.detected stmts out) :
    cleanedLength stmts ≤ out.length := by
  induction h with
  | nil => exact Nat.le_refl 0
  | @keep stmt rest out h ih =>
    have hle := cleanedLength_cons_le stmt rest
    rw [List.length_cons]
    omega
  | noise hnoise h ih =>
    rw [cleanedLength, recover_cons, generatorStep_noise _ hnoise]
    exact ih
  | resume hresume hguard hmay h ih =>
    rw [cleanedLength, recover_cons,
      generatorStep_resume _ hresume (isReturnGuard_of_detected hguard hmay)]
    exact ih
  | save hsave hret h ih =>
    rw [cleanedLength, recover_cons, generatorStep_save _ hsave hret]
    exact Nat.succ_le_succ ih
  | cluster hmay hcluster hyields h ih =>
    obtain ⟨hname, hstores, hret⟩ := stores_of_isYieldCluster hcluster
    obtain ⟨flag, hflag⟩ := Option.isSome_iff_exists.mp hmay
    rw [cleanedLength, recover_cons, generatorStep_cluster _ hname hflag hstores hret, drop_cluster]
    exact Nat.succ_le_succ ih

/-- A statement that the pass keeps is properly kept. -/
theorem properStep_of_kept {stmt : Stmt} {rest : List Stmt} (hresume : stmt.isResume = false)
    (hdefines : ∀ dst op blockId, stmt = .assign dst op blockId →
      objectNames.contains op.name = true → (doneFlag op).isSome = true →
        rest.head?.any Stmt.isStore = false ∧ rest.head?.any Stmt.isReturn = false) :
    properStep entriesOf isState stmt rest = true := by
  cases stmt with
  | assign dst op blockId =>
    have hname : op.name ≠ "ResumeGenerator" := by simpa [Stmt.isResume] using hresume
    rw [properStep, if_neg hname, Bool.or_eq_true, Bool.not_eq_true']
    by_cases hobject : objectNames.contains op.name = true
    · right
      cases hflag : doneFlag op with
      | none => simp [properDefinition, hflag]
      | some flag =>
        obtain ⟨hstore, hret⟩ := hdefines dst op blockId rfl hobject (by rw [hflag]; rfl)
        cases rest with
        | nil => simp [properDefinition, hflag]
        | cons x rest =>
          have hx : x.isStore = false := by simpa using hstore
          have hx' : x.isReturn = false := by simpa using hret
          simp [properDefinition, hflag, hx, hx']
    · left
      simpa using hobject
  | _ => rfl

/-- What stands for a cluster is its value when it comes from the pass. -/
theorem proper_of_yields {op : SsaOp} {stores : List Stmt} {flag : Bool} {value : Option VarId}
    (h : Yields entriesOf op stores (yieldStmt flag value)) :
    doneEntry entriesOf op = some flag ∧
      (flag = true → returnsEntry (valueEntry entriesOf op stores) value = true) := by
  unfold Yields at h
  split at h
  · next hdone =>
    obtain ⟨v, hv, hreturns⟩ := h
    cases flag with
    | true => cases hv; exact ⟨hdone, fun _ => hreturns⟩
    | false => cases hv
  · next hdone =>
    obtain ⟨text, htext⟩ := h
    cases flag with
    | true => cases htext
    | false => exact ⟨hdone, fun hfalse => nomatch hfalse⟩
  · cases h

theorem yields_of_proper {op : SsaOp} {stores : List Stmt} {flag : Bool} {value : Option VarId}
    (hdone : doneEntry entriesOf op = some flag)
    (hreturns : flag = true → returnsEntry (valueEntry entriesOf op stores) value = true) :
    Yields entriesOf op stores (yieldStmt flag value) := by
  unfold Yields
  rw [hdone]
  cases flag with
  | true => exact ⟨value, rfl, hreturns rfl⟩
  | false => exact ⟨_, rfl⟩

/-- A clean-up that leaves what the pass leaves takes the steps of the pass. -/
theorem properSteps_of_cleanedUp {stmts out : List Stmt}
    (h : CleanedUp entriesOf isState Stmt.detected stmts out)
    (hout : out = recoverGeneratorOneLevel stmts) :
    ProperSteps entriesOf isState stmts := by
  induction h with
  | nil => exact fun place hplace => absurd hplace List.not_mem_nil
  | @keep stmt rest out h ih =>
    have hlower := cleanedLength_le h
    have hupper := cleanedLength_cons_le stmt rest
    have hlength : (stmt :: out).length = cleanedLength (stmt :: rest) := congrArg List.length hout
    rw [List.length_cons] at hlength
    have heq : cleanedLength (stmt :: rest) = cleanedLength rest + 1 := by omega
    obtain ⟨hemitted, hleft, hresume, hdefines⟩ := kept_of_cleanedLength heq
    rw [recover_cons, hemitted, hleft] at hout
    rw [ProperSteps, visited_cons, hleft, List.forall_mem_cons]
    exact ⟨properStep_of_kept hresume hdefines, ih (List.cons.inj hout).2⟩
  | @noise stmt rest out hnoise h ih =>
    rw [recover_cons, generatorStep_noise _ hnoise] at hout
    rw [ProperSteps, visited_cons, generatorStep_noise _ hnoise, List.forall_mem_cons]
    refine ⟨?_, ih hout⟩
    cases stmt <;> first | rfl | cases hnoise
  | @resume stmt guard rest out hresume hguard hmay h ih =>
    have hreturns := isReturnGuard_of_detected hguard hmay
    rw [recover_cons, generatorStep_resume _ hresume hreturns] at hout
    rw [ProperSteps, visited_cons, generatorStep_resume _ hresume hreturns, List.forall_mem_cons]
    refine ⟨?_, ih hout⟩
    cases stmt with
    | assign dst op blockId =>
      have hname : op.name = "ResumeGenerator" := by simpa [Stmt.isResume] using hresume
      simp [properStep, hname, hreturns, hguard]
    | _ => cases hresume
  | @save stmt ret rest out hsave hret h ih =>
    rw [recover_cons, generatorStep_save _ hsave hret] at hout
    rw [ProperSteps, visited_cons, generatorStep_save _ hsave hret, List.forall_mem_cons]
    refine ⟨?_, ih (List.cons.inj hout).2⟩
    cases stmt <;> first | rfl | cases hsave
  | @cluster dst op blockId stores ret stmt rest out hmay hcluster hyields h ih =>
    obtain ⟨hname, hstores, hret⟩ := stores_of_isYieldCluster hcluster
    obtain ⟨flag, hflag⟩ := Option.isSome_iff_exists.mp hmay
    have hstep := @generatorStep_cluster rest dst op blockId flag stores ret hname hflag hstores hret
    rw [recover_cons, hstep, drop_cluster] at hout
    obtain ⟨rfl, hrest⟩ := List.cons.inj hout
    rw [ProperSteps, visited_cons, hstep, drop_cluster, List.forall_mem_cons]
    refine ⟨?_, ih hrest⟩
    obtain ⟨hdone, hreturns⟩ := proper_of_yields hyields
    have hstop : (ret :: rest).head?.any Stmt.isStore = false := by
      simp [not_isStore_of_isReturn hret]
    have hresume : op.name ≠ "ResumeGenerator" := by
      simpa [Stmt.isResume] using @not_isResume_of_defines dst op blockId hname
    rw [properStep, if_neg hresume, hname, Bool.not_true, Bool.false_or, properDefinition]
    simp only [takeWhile_stores hstores hstop, List.drop_left, hflag, List.head?_cons, hret, if_true,
      hcluster, hdone, beq_self_eq_true, Bool.true_and, Bool.or_eq_true, Bool.not_eq_true']
    cases flag with
    | true => exact Or.inr (hreturns rfl)
    | false => exact Or.inl rfl

theorem properStep_resume {stmt : Stmt} {rest : List Stmt} (hresume : stmt.isResume = true)
    (h : properStep entriesOf isState stmt rest = true) :
    rest.head?.any (fun guard => guard.isReturnGuard && guard.onlyCompletes) = true := by
  cases stmt with
  | assign dst op blockId =>
    have hname : op.name = "ResumeGenerator" := by simpa [Stmt.isResume] using hresume
    rwa [properStep, if_pos hname] at h
  | _ => cases hresume

theorem properStep_definition {dst : String} {op : SsaOp} {blockId : Option BlockId}
    {rest : List Stmt} (hname : objectNames.contains op.name = true)
    (h : properStep entriesOf isState (.assign dst op blockId) rest = true) :
    properDefinition entriesOf isState op rest = true := by
  have hresume : op.name ≠ "ResumeGenerator" := by
    simpa [Stmt.isResume] using @not_isResume_of_defines dst op blockId hname
  rwa [properStep, if_neg hresume, hname, Bool.not_true, Bool.false_or] at h

/-- Proper steps remove only what may be removed. -/
theorem cleanedUp_of_properSteps {stmts : List Stmt} (h : ProperSteps entriesOf isState stmts) :
    LosesNoWork entriesOf isState stmts := by
  induction stmts using scan_induction generatorStep with
  | nil => exact .nil
  | cons stmt rest ih =>
    rw [ProperSteps, visited_cons, List.forall_mem_cons] at h
    have hrest := ih h.2
    have hproper := h.1
    have hview := generatorStep_view stmt rest
    rw [LosesNoWork, recover_cons]
    rw [LosesNoWork] at hrest
    generalize rest.drop (generatorStep stmt rest).2 = left at hview hrest ⊢
    generalize (generatorStep stmt rest).1 = emitted at hview ⊢
    cases hview with
    | noise hnoise => exact .noise hnoise hrest
    | guarded hresume hguard =>
      have hboth := properStep_resume hresume hproper
      simp only [List.head?_cons, Option.any_some, Bool.and_eq_true] at hboth
      exact .resume hresume hboth.2 rfl hrest
    | resumed hresume hguard =>
      obtain ⟨guard, rest, rfl, hboth⟩ := head?_any_eq_true (properStep_resume hresume hproper)
      rw [Bool.and_eq_true] at hboth
      simp [hboth.1] at hguard
    | saved hsave hret => exact .save hsave hret hrest
    | @yielded _ _ _ flag _ ret _ hname hflag hstores hret =>
      have hstop : (ret :: left).head?.any Stmt.isStore = false := by
        simp [not_isStore_of_isReturn hret]
      have hdefinition := properStep_definition hname hproper
      simp only [properDefinition, takeWhile_stores hstores hstop, List.drop_left, hflag,
        List.head?_cons, hret, if_true, Bool.and_eq_true, beq_iff_eq, Bool.or_eq_true,
        Bool.not_eq_true'] at hdefinition
      obtain ⟨⟨hcluster, hdone⟩, hreturns⟩ := hdefinition
      refine .cluster rfl hcluster (yields_of_proper hdone fun hflag => ?_) hrest
      exact hreturns.resolve_left (by simp [hflag])
    | @lost _ _ _ flag stores _ hname hflag hne hstores hstop hret =>
      have hdefinition := properStep_definition hname hproper
      simp only [properDefinition, takeWhile_stores hstores hstop, List.drop_left, hflag]
        at hdefinition
      have hempty : stores.isEmpty = true := by
        cases left with
        | nil => exact hdefinition
        | cons x left =>
          have hx : x.isReturn = false := by simpa using hret
          simpa [hx] using hdefinition
      exact absurd (List.isEmpty_iff.mp hempty) hne
    | kept hnoise hresume hsave hdefines => exact .keep hrest

theorem properSteps_of_losesNoWork {stmts : List Stmt} (h : LosesNoWork entriesOf isState stmts) :
    ProperSteps entriesOf isState stmts := by
  have hcount : stmts.countP Stmt.undetected ≤
      (recoverGeneratorOneLevel stmts).countP Stmt.undetected :=
    Nat.le_of_eq (countP_undetected_recover stmts).symm
  exact properSteps_of_cleanedUp ((CleanedUp.detected h).2 hcount) rfl

end Proper

/-- No work is lost exactly when every step is proper. -/
theorem losesNoWork_iff (entriesOf : String → List (String × String)) (isState : SsaOp → Bool)
    (stmts : List Stmt) :
    LosesNoWork entriesOf isState stmts ↔ ProperSteps entriesOf isState stmts :=
  ⟨properSteps_of_losesNoWork, cleanedUp_of_properSteps⟩

/-- `r5_0 = { task: null, done: true }`. -/
def taskObject : SsaOp :=
  { name := "NewObjectWithBuffer"
    dst := some ⟨5, 0⟩
    operands := [.dstPlaceholder, .resolvedString "\x7b task: null, done: true \x7d"]
    original := ⟨0, 8, "NewObjectWithBuffer", []⟩ }

/-- `r5_0.task = r1_0`. -/
def taskStore : SsaOp :=
  { name := "PutOwnBySlotIdx"
    dst := none
    operands := [.var ⟨5, 0⟩, .var ⟨1, 0⟩, .resolvedString "task"]
    original := ⟨8, 4, "PutOwnBySlotIdx", []⟩ }

/-- An object with a done entry, a store into it and a copy of it. -/
def taskStmts : List Stmt :=
  [.assign "r5_0" taskObject none, .op taskStore, .phiAssign "r6_0" "r5_0"]

theorem generatorStep_task : generatorStep (.assign "r5_0" taskObject none)
    ([Stmt.op taskStore] ++ [Stmt.phiAssign "r6_0" "r5_0"]) = ([], 1) ∧
    doneFlag taskObject = some true ∧ (Stmt.op taskStore).isStore = true := by
  have hflag : doneFlag taskObject = some true := by decide
  have hstore : (Stmt.op taskStore).isStore = true := by decide
  refine ⟨?_, hflag, hstore⟩
  have htake : ([Stmt.op taskStore] ++ [Stmt.phiAssign "r6_0" "r5_0"]).takeWhile Stmt.isStore =
      [.op taskStore] := takeWhile_stores (by simp [hstore]) rfl
  have hname : objectNames.contains taskObject.name = true := by decide
  have hresume := @not_isResume_of_defines "r5_0" taskObject none hname
  have hnoise : (Stmt.assign "r5_0" taskObject none).isNoise = false := rfl
  have hsave : (Stmt.assign "r5_0" taskObject none).isSave = false := rfl
  simp only [generatorStep, hnoise, hresume, hsave, hname, hflag, htake, Bool.false_eq_true, if_false,
    if_true]
  rfl

/-- No return follows, but the object and the store are gone. -/
theorem taskStmts_lose_work :
    recoverGeneratorOneLevel taskStmts = [.phiAssign "r6_0" "r5_0"] ∧
      ∀ entriesOf isState, ¬ LosesNoWork entriesOf isState taskStmts := by
  obtain ⟨hstep, hflag, hstore⟩ := generatorStep_task
  refine ⟨?_, fun entriesOf isState h => ?_⟩
  · have hrec := recover_cons (.assign "r5_0" taskObject none)
      ([Stmt.op taskStore] ++ [Stmt.phiAssign "r6_0" "r5_0"])
    rw [hstep] at hrec
    exact hrec
  · have hproper := properSteps_of_losesNoWork h
    rw [ProperSteps, taskStmts, visited_cons, List.forall_mem_cons] at hproper
    have hdefinition := properStep_definition (by decide) hproper.1
    have htake : ([Stmt.op taskStore] ++ [Stmt.phiAssign "r6_0" "r5_0"]).takeWhile Stmt.isStore =
        [.op taskStore] := takeWhile_stores (by simp [hstore]) rfl
    simp only [List.singleton_append] at htake
    simp [properDefinition, htake, hflag, Stmt.isReturn] at hdefinition

end Hermes.Structure
