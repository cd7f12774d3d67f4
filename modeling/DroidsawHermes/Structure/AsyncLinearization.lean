-- SUMMARY: Linearisation of async state machines, and exactly when it keeps all work.
import DroidsawHermes.Structure.GeneratorCleanup

/-!
# Async linearisation

`linearize_async` of `decompile/sugar.rs` picks one `if`, goes down its chain of guards and
flattens what it finds there. What stands around the chain is dropped.
-/

namespace Hermes.Structure

open Decompile

/-! ## Guards -/

def isBuiltinCallName (o : SsaOp) : Bool := o.name == "CallBuiltin" || o.name == "CallBuiltinLong"

/-- The operation of an assignment or of a statement for its effect. -/
def Stmt.operation? : Stmt → Option SsaOp
  | .assign _ o _ => some o
  | .op o => some o
  | _ => none

def hasBuiltinCall (stmts : List Stmt) : Bool :=
  stmts.any fun stmt => stmt.operation?.any isBuiltinCallName

def Stmt.isThrow : Stmt → Bool
  | .throw _ => true
  | _ => false

/-- The statement, or one in the first branch of it, is of the kind. -/
def leadsTo (kind : Stmt → Bool) : Stmt → Bool
  | .ifElse _ thenBody _ => thenBody.any kind
  | stmt => kind stmt

def Stmt.isAwait : Stmt → Bool
  | .comment text => startsWith text "await"
  | _ => false

def isStateGuard (stmts : List Stmt) : Bool :=
  hasBuiltinCall stmts || (stmts.any (leadsTo Stmt.isThrow) &&
    stmts.any (leadsTo Stmt.isReturn) && !stmts.any Stmt.isAwait)

/-! ## The pass -/

def Stmt.isIf : Stmt → Bool
  | .ifElse _ _ _ => true
  | _ => false

mutual

/-- The work behind a chain of guards. -/
def skipStateGuards : Stmt → List Stmt
  | .ifElse _ thenBody elseBody =>
    if isStateGuard thenBody then (skipFirstIf elseBody).getD elseBody else []
  | _ => []

/-- The work behind the first `if` of a list. -/
def skipFirstIf : List Stmt → Option (List Stmt)
  | [] => none
  | stmt :: rest => if stmt.isIf then some (skipStateGuards stmt) else skipFirstIf rest

end

mutual

def Stmt.activeWork : Stmt → List Stmt
  | .op o => if storesState o then [] else [.op o]
  | .ifElse _ thenBody elseBody =>
    if isStateGuard thenBody then collectActiveWork elseBody
    else if isStateGuard elseBody then collectActiveWork thenBody
    else collectActiveWork thenBody ++ collectActiveWork elseBody
  | stmt => [stmt]

def collectActiveWork : List Stmt → List Stmt
  | [] => []
  | stmt :: rest => stmt.activeWork ++ collectActiveWork rest

end

def ifNonempty (stmts : List Stmt) : Option (List Stmt) :=
  if stmts.isEmpty then none else some stmts

/-- The linear body for a dispatch. -/
def linearWork (dispatch : Stmt) : Option (List Stmt) :=
  (ifNonempty (skipStateGuards dispatch)).bind fun active => ifNonempty (collectActiveWork active)

/-- A try whose body does nothing but store. -/
def isStateWrapper : Stmt → Bool
  | .tryCatch tryBody _ catchBody =>
    decide (4 ≤ catchBody.length) && tryBody.all fun
      | .comment _ => true
      | .op o => startsWith o.name "Store"
      | _ => false
  | _ => false

def Stmt.catchBody : Stmt → List Stmt
  | .tryCatch _ _ catchBody => catchBody
  | _ => []

/-- The state machine in the catch body of a wrapper. -/
def linearizeWrapped (stmts : List Stmt) : Option (List Stmt) :=
  (stmts.find? isStateWrapper).bind fun wrapper =>
    (wrapper.catchBody.find? Stmt.isIf).bind linearWork

def Stmt.thenBody : Stmt → List Stmt
  | .ifElse _ thenBody _ => thenBody
  | _ => []

/-- The dispatch at the end of the list. -/
def linearizeFlat (stmts : List Stmt) : Option (List Stmt) :=
  (stmts.reverse.find? Stmt.isIf).bind fun dispatch =>
    if hasBuiltinCall dispatch.thenBody then linearWork dispatch else none

/-- What replaces the statements, if anything does. -/
def linearized (stmts : List Stmt) : Option (List Stmt) :=
  (linearizeWrapped stmts).or (linearizeFlat stmts)

def linearizeAsync (stmts : List Stmt) : List Stmt := (linearized stmts).getD stmts

/-- The functions that the pass runs on. -/
def runsAsync (isAsync : Bool) (name : String) : Bool := isAsync || containsText name "anon_0_"

def linearizeFunction (isAsync : Bool) (name : String) (stmts : List Stmt) : List Stmt :=
  if runsAsync isAsync name then linearizeAsync stmts else stmts

/-! ## What may be dropped -/

/-- Which conditions test the state of the generator, and which stores set it. -/
structure AsyncState where
  onState : Condition → Bool
  setsState : SsaOp → Bool

def callsThrowTypeError (o : SsaOp) : Bool :=
  isBuiltinCallName o && match o.operands[1]? with
    | some (SsaOperand.const id) => builtinName (asU32 id) == "HermesBuiltin.throwTypeError"
    | _ => false

/-- Nothing but definitions without effects in front of throws and returns. -/
def Stmt.onlyLeaves : Stmt → Bool
  | .throw _ => true
  | .return _ => true
  | .assign _ o _ => isPure o.name
  | .comment _ => true
  | _ => false

def Stmt.leavesAtOnce : Stmt → Bool
  | .ifElse _ thenBody elseBody => thenBody.all onlyLeaves && elseBody.all onlyLeaves
  | stmt => stmt.onlyLeaves

/-- The branch of the completed state, or the handler of an early end. -/
def isGuardBranch (stmts : List Stmt) : Bool :=
  (stmts.any fun stmt => stmt.operation?.any callsThrowTypeError) ||
    (isStateGuard stmts && stmts.all Stmt.leavesAtOnce)

section Spec

variable (m : AsyncState)

def isStateStore (o : SsaOp) : Bool := storesState o && m.setsState o

/-- The second list is the first one without state stores, dispatches on the state and the
guard branches of these. -/
inductive Linearized : List Stmt → List Stmt → Prop where
  | nil : Linearized [] []
  | keep {stmt : Stmt} {rest out : List Stmt} (h : Linearized rest out) :
    Linearized (stmt :: rest) (stmt :: out)
  | store {o : SsaOp} {rest out : List Stmt} (hstore : isStateStore m o = true)
    (h : Linearized rest out) : Linearized (.op o :: rest) out
  | thenGuard {cond : Condition} {thenBody elseBody rest elseOut out : List Stmt}
    (hstate : m.onState cond = true) (hguard : isGuardBranch thenBody = true)
    (helse : Linearized elseBody elseOut) (h : Linearized rest out) :
    Linearized (.ifElse cond thenBody elseBody :: rest) (elseOut ++ out)
  | elseGuard {cond : Condition} {thenBody elseBody rest thenOut out : List Stmt}
    (hstate : m.onState cond = true) (hother : isStateGuard thenBody = false)
    (hguard : isGuardBranch elseBody = true) (hthen : Linearized thenBody thenOut)
    (h : Linearized rest out) :
    Linearized (.ifElse cond thenBody elseBody :: rest) (thenOut ++ out)
  | dispatch {cond : Condition} {thenBody elseBody rest thenOut elseOut out : List Stmt}
    (hstate : m.onState cond = true) (hthen : Linearized thenBody thenOut)
    (helse : Linearized elseBody elseOut) (h : Linearized rest out) :
    Linearized (.ifElse cond thenBody elseBody :: rest) (thenOut ++ elseOut ++ out)

/-- Whenever the statements are replaced, no work is lost. -/
def KeepsWork (isAsync : Bool) (name : String) (stmts : List Stmt) : Prop :=
  runsAsync isAsync name = true → ∀ out, linearized stmts = some out → Linearized m stmts out

/-! ## The condition -/

mutual

def Stmt.isIdle : Stmt → Bool
  | .op o => isStateStore m o
  | .ifElse cond thenBody elseBody =>
    m.onState cond && ((isGuardBranch thenBody && isIdle elseBody) ||
      (!isStateGuard thenBody && isGuardBranch elseBody && isIdle thenBody) ||
        (isIdle thenBody && isIdle elseBody))
  | _ => false

/-- There is no work in the statements. -/
def isIdle : List Stmt → Bool
  | [] => true
  | stmt :: rest => stmt.isIdle && isIdle rest

end

mutual

def Stmt.isFlat : Stmt → Bool
  | .op o => !storesState o || m.setsState o
  | .ifElse cond thenBody elseBody =>
    m.onState cond &&
      if isStateGuard thenBody then (isGuardBranch thenBody || isIdle m thenBody) && isFlat elseBody
      else if isStateGuard elseBody then
        (isGuardBranch elseBody || isIdle m elseBody) && isFlat thenBody
      else isFlat thenBody && isFlat elseBody
  | _ => true

/-- Every `if` tests the state, every environment store sets it, and what is taken for a guard
is one or holds no work. -/
def isFlat : List Stmt → Bool
  | [] => true
  | stmt :: rest => stmt.isFlat && isFlat rest

end

end Spec

mutual

/-- What stands beside the chain of guards, inside of it. -/
def aroundGuards : Stmt → List Stmt
  | .ifElse _ _ elseBody => aroundFirstIf elseBody
  | _ => []

def aroundFirstIf : List Stmt → List Stmt
  | [] => []
  | stmt :: rest =>
    if stmt.isIf then aroundGuards stmt ++ rest
    else if rest.any Stmt.isIf then stmt :: aroundFirstIf rest
    else []

end

/-- What stands beside the last `if` and its chain of guards. -/
def aroundDispatch (stmts : List Stmt) : List Stmt :=
  match stmts.reverse.dropWhile fun stmt => !stmt.isIf with
  | [] => []
  | dispatch :: before => before.reverse ++ aroundGuards dispatch ++
    (stmts.reverse.takeWhile fun stmt => !stmt.isIf).reverse

/-- Whatever is replaced is a flat dispatch with nothing around it. -/
def ProperLinearization (m : AsyncState) (isAsync : Bool) (name : String) (stmts : List Stmt) :
    Prop :=
  runsAsync isAsync name = true → (linearized stmts).isSome = true →
    linearizeWrapped stmts = none ∧ isFlat m stmts = true ∧
      collectActiveWork (aroundDispatch stmts) = []

/-! ## Guards are recognised -/

variable {m : AsyncState}

theorem isStateGuard_of_isGuardBranch {stmts : List Stmt} (h : isGuardBranch stmts = true) :
    isStateGuard stmts = true := by
  rw [isGuardBranch, Bool.or_eq_true, Bool.and_eq_true] at h
  rcases h with h | h
  · rw [isStateGuard, Bool.or_eq_true]
    left
    rw [List.any_eq_true] at h
    obtain ⟨stmt, hstmt, hcall⟩ := h
    rw [Option.any_eq_true] at hcall
    obtain ⟨o, ho, hcall⟩ := hcall
    rw [callsThrowTypeError, Bool.and_eq_true] at hcall
    exact List.any_eq_true.mpr ⟨stmt, hstmt, by rw [ho]; exact hcall.1⟩
  · exact h.1

/-! ## Lists without branches -/

theorem activeWork_length_le {stmt : Stmt} (h : stmt.isIf = false) :
    stmt.activeWork.length ≤ 1 := by
  cases stmt with
  | ifElse cond thenBody elseBody => cases h
  | op o =>
    rw [Stmt.activeWork]
    split <;> simp
  | _ => exact Nat.le_refl 1

/-- The flattened statements are the shortest that may be left. -/
theorem collectActiveWork_length_le {stmts out : List Stmt} (h : Linearized m stmts out)
    (hflat : ∀ stmt ∈ out, stmt.isIf = false) :
    (collectActiveWork stmts).length ≤ out.length := by
  induction h with
  | nil => exact Nat.le_refl 0
  | @keep stmt rest out h ih =>
    rw [List.forall_mem_cons] at hflat
    have hstmt := activeWork_length_le hflat.1
    have hrest := ih hflat.2
    rw [collectActiveWork, List.length_append, List.length_cons]
    omega
  | @store o rest out hstore h ih =>
    rw [isStateStore, Bool.and_eq_true] at hstore
    rw [collectActiveWork, Stmt.activeWork, if_pos hstore.1]
    exact ih hflat
  | @thenGuard cond thenBody elseBody rest elseOut out hstate hguard helse h ihelse ih =>
    rw [List.forall_mem_append] at hflat
    have helse := ihelse hflat.1
    have hrest := ih hflat.2
    rw [collectActiveWork, Stmt.activeWork, if_pos (isStateGuard_of_isGuardBranch hguard),
      List.length_append, List.length_append]
    omega
  | @elseGuard cond thenBody elseBody rest thenOut out hstate hother hguard hthen h ihthen ih =>
    rw [List.forall_mem_append] at hflat
    have hthen := ihthen hflat.1
    have hrest := ih hflat.2
    rw [collectActiveWork, Stmt.activeWork, if_neg (by simp [hother]),
      if_pos (isStateGuard_of_isGuardBranch hguard), List.length_append, List.length_append]
    omega
  | @dispatch cond thenBody elseBody rest thenOut elseOut out hstate hthen helse h ihthen ihelse ih =>
    rw [List.forall_mem_append, List.forall_mem_append] at hflat
    have hthen := ihthen hflat.1.1
    have helse := ihelse hflat.1.2
    have hrest := ih hflat.2
    rw [collectActiveWork, Stmt.activeWork, List.length_append, List.length_append,
      List.length_append]
    split
    · omega
    · split
      · omega
      · rw [List.length_append]
        omega

/-- Only idle statements may be left out altogether. -/
theorem isIdle_of_linearized {stmts out : List Stmt} (h : Linearized m stmts out)
    (hout : out = []) : isIdle m stmts = true := by
  induction h with
  | nil => rfl
  | keep h ih => cases hout
  | store hstore h ih => simp [isIdle, Stmt.isIdle, hstore, ih hout]
  | thenGuard hstate hguard helse h ihelse ih =>
    rw [List.append_eq_nil_iff] at hout
    simp [isIdle, Stmt.isIdle, hstate, hguard, ihelse hout.1, ih hout.2]
  | elseGuard hstate hother hguard hthen h ihthen ih =>
    rw [List.append_eq_nil_iff] at hout
    simp [isIdle, Stmt.isIdle, hstate, hother, hguard, ihthen hout.1, ih hout.2]
  | dispatch hstate hthen helse h ihthen ihelse ih =>
    rw [List.append_eq_nil_iff, List.append_eq_nil_iff] at hout
    simp [isIdle, Stmt.isIdle, hstate, ihthen hout.1.1, ihelse hout.1.2, ih hout.2]

/-- The shortest list is left by flat statements only. -/
theorem isFlat_of_linearized {stmts out : List Stmt} (h : Linearized m stmts out)
    (hflat : ∀ stmt ∈ out, stmt.isIf = false)
    (hlength : out.length ≤ (collectActiveWork stmts).length) : isFlat m stmts = true := by
  induction h with
  | nil => rfl
  | @keep stmt rest out h ih =>
    rw [List.forall_mem_cons] at hflat
    have hle := activeWork_length_le hflat.1
    have hrest := collectActiveWork_length_le h hflat.2
    rw [collectActiveWork, List.length_append, List.length_cons] at hlength
    rw [isFlat, Bool.and_eq_true]
    refine ⟨?_, ih hflat.2 (by omega)⟩
    have hkept : stmt.activeWork ≠ [] := by
      intro hnil
      rw [hnil, List.length_nil] at hlength
      omega
    cases stmt with
    | op o =>
      have hstore : storesState o = false := by
        by_contra hstore
        rw [Bool.not_eq_false] at hstore
        exact hkept (by rw [Stmt.activeWork, if_pos hstore])
      simp [Stmt.isFlat, hstore]
    | ifElse cond thenBody elseBody => cases hflat.1
    | _ => rfl
  | @store o rest out hstore h ih =>
    rw [isStateStore, Bool.and_eq_true] at hstore
    rw [collectActiveWork, Stmt.activeWork, if_pos hstore.1, List.nil_append] at hlength
    rw [isFlat, Stmt.isFlat, ih hflat hlength, hstore.2, Bool.or_true, Bool.and_true]
  | @thenGuard cond thenBody elseBody rest elseOut out hstate hguard helse h ihelse ih =>
    rw [List.forall_mem_append] at hflat
    have hrecognised := isStateGuard_of_isGuardBranch hguard
    have hle := collectActiveWork_length_le helse hflat.1
    have hle' := collectActiveWork_length_le h hflat.2
    rw [collectActiveWork, Stmt.activeWork, if_pos hrecognised, List.length_append,
      List.length_append] at hlength
    have helseFlat := ihelse hflat.1 (by omega)
    have hrest := ih hflat.2 (by omega)
    simp [isFlat, Stmt.isFlat, hstate, hrecognised, hguard, helseFlat, hrest]
  | @elseGuard cond thenBody elseBody rest thenOut out hstate hother hguard hthen h ihthen ih =>
    rw [List.forall_mem_append] at hflat
    have hrecognised := isStateGuard_of_isGuardBranch hguard
    have hle := collectActiveWork_length_le hthen hflat.1
    have hle' := collectActiveWork_length_le h hflat.2
    rw [collectActiveWork, Stmt.activeWork, if_neg (by simp [hother]), if_pos hrecognised,
      List.length_append, List.length_append] at hlength
    have hthenFlat := ihthen hflat.1 (by omega)
    have hrest := ih hflat.2 (by omega)
    simp [isFlat, Stmt.isFlat, hstate, hother, hrecognised, hguard, hthenFlat, hrest]
  | @dispatch cond thenBody elseBody rest thenOut elseOut out hstate hthen helse h ihthen ihelse ih =>
    rw [List.forall_mem_append, List.forall_mem_append] at hflat
    have hle := collectActiveWork_length_le hthen hflat.1.1
    have hle' := collectActiveWork_length_le helse hflat.1.2
    have hle'' := collectActiveWork_length_le h hflat.2
    rw [collectActiveWork, Stmt.activeWork, List.length_append, List.length_append,
      List.length_append] at hlength
    rw [isFlat, Stmt.isFlat, hstate, Bool.true_and, Bool.and_eq_true]
    split at hlength
    · next hrecognised =>
      have hidle := isIdle_of_linearized hthen (List.length_eq_zero_iff.mp (by omega))
      have helseFlat := ihelse hflat.1.2 (by omega)
      exact ⟨by simp [hrecognised, hidle, helseFlat], ih hflat.2 (by omega)⟩
    · next hother =>
      split at hlength
      · next hrecognised =>
        have hidle := isIdle_of_linearized helse (List.length_eq_zero_iff.mp (by omega))
        have hthenFlat := ihthen hflat.1.1 (by omega)
        exact ⟨by simp [hother, hrecognised, hidle, hthenFlat], ih hflat.2 (by omega)⟩
      · next hother' =>
        rw [List.length_append] at hlength
        have hthenFlat := ihthen hflat.1.1 (by omega)
        have helseFlat := ihelse hflat.1.2 (by omega)
        exact ⟨by simp [hother, hother', hthenFlat, helseFlat], ih hflat.2 (by omega)⟩

mutual

theorem linearized_of_isIdleStmt (stmt : Stmt) {rest out : List Stmt} (h : stmt.isIdle m = true)
    (hrest : Linearized m rest out) : Linearized m (stmt :: rest) out := by
  cases stmt with
  | op o => exact .store h hrest
  | ifElse cond thenBody elseBody =>
    simp only [Stmt.isIdle, Bool.and_eq_true, Bool.or_eq_true, Bool.not_eq_true'] at h
    obtain ⟨hstate, (⟨hguard, helse⟩ | ⟨⟨hother, hguard⟩, hthen⟩) | ⟨hthen, helse⟩⟩ := h
    · exact .thenGuard hstate hguard (linearized_of_isIdle elseBody helse) hrest
    · exact .elseGuard hstate hother hguard (linearized_of_isIdle thenBody hthen) hrest
    · exact .dispatch hstate (linearized_of_isIdle thenBody hthen)
        (linearized_of_isIdle elseBody helse) hrest
  | _ => cases h

theorem linearized_of_isIdle (stmts : List Stmt) (h : isIdle m stmts = true) :
    Linearized m stmts [] := by
  cases stmts with
  | nil => exact .nil
  | cons stmt rest =>
    rw [isIdle, Bool.and_eq_true] at h
    exact linearized_of_isIdleStmt stmt h.1 (linearized_of_isIdle rest h.2)

end

mutual

theorem linearized_of_isFlatStmt (stmt : Stmt) {rest out : List Stmt} (h : stmt.isFlat m = true)
    (hrest : Linearized m rest out) : Linearized m (stmt :: rest) (stmt.activeWork ++ out) := by
  cases stmt with
  | op o =>
    rw [Stmt.activeWork]
    split
    · next hstore =>
      rw [Stmt.isFlat, hstore, Bool.not_true, Bool.false_or] at h
      exact .store (by rw [isStateStore, hstore, h]; rfl) hrest
    · exact .keep hrest
  | ifElse cond thenBody elseBody =>
    rw [Stmt.isFlat, Bool.and_eq_true] at h
    obtain ⟨hstate, h⟩ := h
    rw [Stmt.activeWork]
    split
    · next hrecognised =>
      rw [if_pos hrecognised, Bool.and_eq_true, Bool.or_eq_true] at h
      have helse := linearized_of_isFlat elseBody h.2
      rcases h.1 with hguard | hidle
      · exact .thenGuard hstate hguard helse hrest
      · exact .dispatch hstate (linearized_of_isIdle thenBody hidle) helse hrest
    · next hother =>
      rw [if_neg hother] at h
      split
      · next hrecognised =>
        rw [if_pos hrecognised, Bool.and_eq_true, Bool.or_eq_true] at h
        have hthen := linearized_of_isFlat thenBody h.2
        rcases h.1 with hguard | hidle
        · exact .elseGuard hstate (by simpa using hother) hguard hthen hrest
        · have hdispatch := Linearized.dispatch hstate hthen (linearized_of_isIdle elseBody hidle)
            hrest
          rwa [List.append_nil] at hdispatch
      · next hother' =>
        rw [if_neg hother', Bool.and_eq_true] at h
        exact .dispatch hstate (linearized_of_isFlat thenBody h.1)
          (linearized_of_isFlat elseBody h.2) hrest
  | _ => exact .keep hrest

theorem linearized_of_isFlat (stmts : List Stmt) (h : isFlat m stmts = true) :
    Linearized m stmts (collectActiveWork stmts) := by
  cases stmts with
  | nil => exact .nil
  | cons stmt rest =>
    rw [isFlat, Bool.and_eq_true] at h
    exact linearized_of_isFlatStmt stmt h.1 (linearized_of_isFlat rest h.2)

end

/-- Statements whose flattening has no branches are flattened without loss exactly when they
are flat. -/
theorem linearized_collectActiveWork_iff {stmts : List Stmt}
    (hflat : ∀ stmt ∈ collectActiveWork stmts, stmt.isIf = false) :
    Linearized m stmts (collectActiveWork stmts) ↔ isFlat m stmts = true :=
  ⟨fun h => isFlat_of_linearized h hflat (Nat.le_refl _), linearized_of_isFlat stmts⟩

mutual

theorem isIf_activeWork (stmt : Stmt) : ∀ s ∈ stmt.activeWork, s.isIf = false := by
  cases stmt with
  | op o =>
    rw [Stmt.activeWork]
    split <;> simp [Stmt.isIf]
  | ifElse cond thenBody elseBody =>
    have hthen := isIf_collectActiveWork thenBody
    have helse := isIf_collectActiveWork elseBody
    rw [Stmt.activeWork]
    split
    · exact helse
    · split
      · exact hthen
      · exact List.forall_mem_append.mpr ⟨hthen, helse⟩
  | _ => simp [Stmt.activeWork, Stmt.isIf]

theorem isIf_collectActiveWork (stmts : List Stmt) :
    ∀ s ∈ collectActiveWork stmts, s.isIf = false := by
  cases stmts with
  | nil => simp [collectActiveWork]
  | cons stmt rest =>
    rw [collectActiveWork, List.forall_mem_append]
    exact ⟨isIf_activeWork stmt, isIf_collectActiveWork rest⟩

end

/-! ## What stands around the dispatch -/

theorem collectActiveWork_append (stmts stmts' : List Stmt) :
    collectActiveWork (stmts ++ stmts') = collectActiveWork stmts ++ collectActiveWork stmts' := by
  induction stmts with
  | nil => rfl
  | cons stmt rest ih => rw [List.cons_append, collectActiveWork, collectActiveWork, ih,
      List.append_assoc]

theorem aroundFirstIf_of_none {stmts : List Stmt} (h : skipFirstIf stmts = none) :
    stmts.any Stmt.isIf = false ∧ aroundFirstIf stmts = [] := by
  induction stmts with
  | nil => exact ⟨rfl, rfl⟩
  | cons stmt rest ih =>
    rw [skipFirstIf] at h
    split at h
    · cases h
    · next hstmt =>
      obtain ⟨hrest, -⟩ := ih h
      refine ⟨by simp [hstmt, hrest], ?_⟩
      rw [aroundFirstIf, if_neg hstmt, if_neg (by simp [hrest])]

theorem any_isIf_of_skipFirstIf {stmts active : List Stmt} (h : skipFirstIf stmts = some active) :
    stmts.any Stmt.isIf = true := by
  induction stmts with
  | nil => cases h
  | cons stmt rest ih =>
    rw [skipFirstIf] at h
    rw [List.any_cons, Bool.or_eq_true]
    split at h
    · next hstmt => exact Or.inl hstmt
    · exact Or.inr (ih h)

mutual

/-- The flattened `if` is the work behind its guards, with what stands around them. -/
theorem activeWork_skip (stmt : Stmt) (hne : skipStateGuards stmt ≠ []) :
    ∃ before after, stmt.activeWork = before ++ collectActiveWork (skipStateGuards stmt) ++ after ∧
      collectActiveWork (aroundGuards stmt) = before ++ after := by
  cases stmt with
  | ifElse cond thenBody elseBody =>
    rw [skipStateGuards] at hne ⊢
    split at hne
    · next hguard =>
      rw [if_pos hguard, Stmt.activeWork, if_pos hguard, aroundGuards]
      cases hskip : skipFirstIf elseBody with
      | none =>
        rw [(aroundFirstIf_of_none hskip).2]
        exact ⟨[], [], by simp, by simp [collectActiveWork]⟩
      | some active =>
        rw [hskip] at hne
        exact collectActiveWork_skip elseBody hskip hne
    · cases hne rfl
  | _ => cases hne rfl

theorem collectActiveWork_skip (stmts : List Stmt) {active : List Stmt}
    (h : skipFirstIf stmts = some active) (hne : active ≠ []) :
    ∃ before after, collectActiveWork stmts = before ++ collectActiveWork active ++ after ∧
      collectActiveWork (aroundFirstIf stmts) = before ++ after := by
  cases stmts with
  | nil => cases h
  | cons stmt rest =>
    rw [skipFirstIf] at h
    split at h
    · next hstmt =>
      cases h
      obtain ⟨before, after, hwork, haround⟩ := activeWork_skip stmt hne
      refine ⟨before, after ++ collectActiveWork rest, ?_, ?_⟩
      · rw [collectActiveWork, hwork, List.append_assoc _ after]
      · rw [aroundFirstIf, if_pos hstmt, collectActiveWork_append, haround, List.append_assoc]
    · next hstmt =>
      obtain ⟨before, after, hwork, haround⟩ := collectActiveWork_skip rest h hne
      have hany := any_isIf_of_skipFirstIf h
      refine ⟨stmt.activeWork ++ before, after, ?_, ?_⟩
      · rw [collectActiveWork, hwork]
        simp only [List.append_assoc]
      · rw [aroundFirstIf, if_neg hstmt, if_pos hany, collectActiveWork, haround,
          List.append_assoc]

end

theorem eq_of_ifNonempty {stmts out : List Stmt} (h : ifNonempty stmts = some out) :
    stmts = out ∧ out ≠ [] := by
  unfold ifNonempty at h
  split at h
  · cases h
  · next hne =>
    cases h
    exact ⟨rfl, fun hnil => hne (by rw [hnil]; rfl)⟩

theorem eq_of_linearWork {dispatch : Stmt} {out : List Stmt} (h : linearWork dispatch = some out) :
    out = collectActiveWork (skipStateGuards dispatch) ∧ skipStateGuards dispatch ≠ [] := by
  obtain ⟨active, hactive, hwork⟩ := Option.bind_eq_some_iff.mp h
  obtain ⟨rfl, hne⟩ := eq_of_ifNonempty hactive
  exact ⟨(eq_of_ifNonempty hwork).1.symm, hne⟩

/-- The list is what stands in front of its last `if`, the `if` and what stands behind it. -/
theorem split_dispatch {stmts : List Stmt} {dispatch : Stmt}
    (h : stmts.reverse.find? Stmt.isIf = some dispatch) :
    ∃ before after, stmts = before ++ dispatch :: after ∧
      aroundDispatch stmts = before ++ aroundGuards dispatch ++ after := by
  rw [List.find?_eq_head?_dropWhile_not] at h
  cases hdrop : stmts.reverse.dropWhile fun stmt => !stmt.isIf with
  | nil =>
    rw [hdrop] at h
    cases h
  | cons first before =>
    rw [hdrop] at h
    cases h
    have hsplit := List.takeWhile_append_dropWhile (p := fun stmt : Stmt => !stmt.isIf)
      (l := stmts.reverse)
    refine ⟨before.reverse, (stmts.reverse.takeWhile fun stmt => !stmt.isIf).reverse, ?_, ?_⟩
    · rw [hdrop] at hsplit
      have hreverse := congrArg List.reverse hsplit
      simpa using hreverse.symm
    · rw [aroundDispatch, hdrop]

/-- The linear body is part of the flattened list, and the rest is flattened from what stands
around it. -/
theorem linearizeFlat_split {stmts out : List Stmt} (h : linearizeFlat stmts = some out) :
    (∀ stmt ∈ out, stmt.isIf = false) ∧ ∃ before after,
      collectActiveWork stmts = before ++ out ++ after ∧
        (collectActiveWork (aroundDispatch stmts)).length = before.length + after.length := by
  obtain ⟨dispatch, hfind, h⟩ := Option.bind_eq_some_iff.mp h
  split at h
  · obtain ⟨rfl, hne⟩ := eq_of_linearWork h
    obtain ⟨before, after, hstmts, haround⟩ := split_dispatch hfind
    obtain ⟨inBefore, inAfter, hwork, hguards⟩ := activeWork_skip dispatch hne
    refine ⟨isIf_collectActiveWork _, collectActiveWork before ++ inBefore,
      inAfter ++ collectActiveWork after, ?_, ?_⟩
    · conv_lhs => rw [hstmts, collectActiveWork_append, collectActiveWork, hwork]
      simp only [List.append_assoc]
    · rw [haround, collectActiveWork_append, collectActiveWork_append, hguards]
      simp only [List.length_append]
      omega
  · cases h

/-- A flat dispatch keeps its work exactly when nothing stands around it. -/
theorem linearizeFlat_keeps_iff {stmts out : List Stmt} (h : linearizeFlat stmts = some out) :
    Linearized m stmts out ↔
      isFlat m stmts = true ∧ collectActiveWork (aroundDispatch stmts) = [] := by
  obtain ⟨hflat, before, after, hwork, haround⟩ := linearizeFlat_split h
  constructor
  · intro hlinear
    have hle := collectActiveWork_length_le hlinear hflat
    rw [hwork, List.length_append, List.length_append] at hle
    refine ⟨isFlat_of_linearized hlinear hflat ?_, List.length_eq_zero_iff.mp (by omega)⟩
    rw [hwork, List.length_append, List.length_append]
    omega
  · rintro ⟨hproper, hnil⟩
    rw [hnil, List.length_nil] at haround
    have hbefore : before = [] := List.length_eq_zero_iff.mp (by omega)
    have hafter : after = [] := List.length_eq_zero_iff.mp (by omega)
    rw [hbefore, hafter, List.nil_append, List.append_nil] at hwork
    rw [← hwork]
    exact linearized_of_isFlat stmts hproper

/-! ## Wrappers are lost -/

theorem depth_le_depthOf {stmts : List Stmt} {stmt : Stmt} (h : stmt ∈ stmts) :
    stmt.depth ≤ depthOf stmts := by
  induction stmts with
  | nil => cases h
  | cons first rest ih =>
    rw [depthOf]
    rcases List.mem_cons.mp h with rfl | h
    · exact Nat.le_max_left _ _
    · exact Nat.le_trans (ih h) (Nat.le_max_right _ _)

mutual

theorem depth_activeWork (stmt : Stmt) : ∀ s ∈ stmt.activeWork, s.depth ≤ stmt.depth := by
  cases stmt with
  | op o =>
    rw [Stmt.activeWork]
    split <;> simp
  | ifElse cond thenBody elseBody =>
    have hthen := depth_collectActiveWork thenBody
    have helse := depth_collectActiveWork elseBody
    have hthen' : ∀ s ∈ collectActiveWork thenBody,
        s.depth ≤ (Stmt.ifElse cond thenBody elseBody).depth := fun s hs => by
      have hle := hthen s hs
      rw [Stmt.depth]
      omega
    have helse' : ∀ s ∈ collectActiveWork elseBody,
        s.depth ≤ (Stmt.ifElse cond thenBody elseBody).depth := fun s hs => by
      have hle := helse s hs
      rw [Stmt.depth]
      omega
    rw [Stmt.activeWork]
    split
    · exact helse'
    · split
      · exact hthen'
      · exact List.forall_mem_append.mpr ⟨hthen', helse'⟩
  | _ => simp [Stmt.activeWork]

theorem depth_collectActiveWork (stmts : List Stmt) :
    ∀ s ∈ collectActiveWork stmts, s.depth ≤ depthOf stmts := by
  cases stmts with
  | nil => simp [collectActiveWork]
  | cons stmt rest =>
    rw [collectActiveWork, List.forall_mem_append, depthOf]
    exact ⟨fun s hs => Nat.le_trans (depth_activeWork stmt s hs) (Nat.le_max_left _ _),
      fun s hs => Nat.le_trans (depth_collectActiveWork rest s hs) (Nat.le_max_right _ _)⟩

end

mutual

theorem depth_skipStateGuards (stmt : Stmt) : depthOf (skipStateGuards stmt) ≤ stmt.depth := by
  cases stmt with
  | ifElse cond thenBody elseBody =>
    rw [skipStateGuards, Stmt.depth]
    split
    · cases hskip : skipFirstIf elseBody with
      | none =>
        rw [Option.getD_none]
        omega
      | some active =>
        have hle := depth_skipFirstIf elseBody hskip
        rw [Option.getD_some]
        omega
    · exact Nat.zero_le _
  | _ => exact Nat.zero_le _

theorem depth_skipFirstIf (stmts : List Stmt) {active : List Stmt}
    (h : skipFirstIf stmts = some active) : depthOf active ≤ depthOf stmts := by
  cases stmts with
  | nil => cases h
  | cons stmt rest =>
    rw [skipFirstIf] at h
    rw [depthOf]
    split at h
    · cases h
      exact Nat.le_trans (depth_skipStateGuards stmt) (Nat.le_max_left _ _)
    · exact Nat.le_trans (depth_skipFirstIf rest h) (Nat.le_max_right _ _)

end

/-- A wrapper cannot be left out. -/
theorem mem_of_linearized {stmts out : List Stmt} (h : Linearized m stmts out) {wrapper : Stmt}
    (hwrapper : isStateWrapper wrapper = true) (hmem : wrapper ∈ stmts) : wrapper ∈ out := by
  induction h with
  | nil => cases hmem
  | keep h ih =>
    rcases List.mem_cons.mp hmem with rfl | hmem
    · exact List.mem_cons_self
    · exact List.mem_cons_of_mem _ (ih hmem)
  | store hstore h ih =>
    rcases List.mem_cons.mp hmem with rfl | hmem
    · cases hwrapper
    · exact ih hmem
  | thenGuard hstate hguard helse h ihelse ih =>
    rcases List.mem_cons.mp hmem with rfl | hmem
    · cases hwrapper
    · exact List.mem_append_right _ (ih hmem)
  | elseGuard hstate hother hguard hthen h ihthen ih =>
    rcases List.mem_cons.mp hmem with rfl | hmem
    · cases hwrapper
    · exact List.mem_append_right _ (ih hmem)
  | dispatch hstate hthen helse h ihthen ihelse ih =>
    rcases List.mem_cons.mp hmem with rfl | hmem
    · cases hwrapper
    · exact List.mem_append_right _ (ih hmem)

theorem not_linearized_wrapped {stmts out : List Stmt} (h : linearizeWrapped stmts = some out) :
    ¬ Linearized m stmts out := by
  intro hlinear
  obtain ⟨wrapper, hfind, h⟩ := Option.bind_eq_some_iff.mp h
  obtain ⟨dispatch, hdispatch, h⟩ := Option.bind_eq_some_iff.mp h
  obtain ⟨rfl, -⟩ := eq_of_linearWork h
  have hwrapper := List.find?_some hfind
  have hmem := mem_of_linearized hlinear hwrapper (List.mem_of_find?_eq_some hfind)
  have hwork := depth_collectActiveWork _ wrapper hmem
  have hskip := depth_skipStateGuards dispatch
  have hbody := depth_le_depthOf (List.mem_of_find?_eq_some hdispatch)
  cases wrapper with
  | tryCatch tryBody catchVar catchBody =>
    rw [Stmt.depth] at hwork
    rw [Stmt.catchBody] at hbody
    omega
  | _ => cases hwrapper

/-! ## The pass -/

/-- No work is lost exactly when whatever is replaced is a flat dispatch on the state with
nothing around it. -/
theorem keepsWork_iff (m : AsyncState) (isAsync : Bool) (name : String) (stmts : List Stmt) :
    KeepsWork m isAsync name stmts ↔ ProperLinearization m isAsync name stmts := by
  refine forall_congr' fun _ => ?_
  cases hwrapped : linearizeWrapped stmts with
  | some out =>
    have hlinearized : linearized stmts = some out := by rw [linearized, hwrapped]; rfl
    refine iff_of_false (fun h => not_linearized_wrapped hwrapped (h out hlinearized)) fun h => ?_
    have hnone := (h (by rw [hlinearized]; rfl)).1
    cases hnone
  | none =>
    have hlinearized : linearized stmts = linearizeFlat stmts := by rw [linearized, hwrapped]; rfl
    rw [hlinearized]
    cases hflat : linearizeFlat stmts with
    | none => simp
    | some out =>
      have hkeeps := linearizeFlat_keeps_iff (m := m) hflat
      constructor
      · exact fun h _ => ⟨rfl, hkeeps.mp (h out rfl)⟩
      · rintro h _ ⟨⟩
        exact hkeeps.mpr (h rfl).2

/-- A call for its effect. -/
def callStmt (reg : Nat) : Stmt :=
  .op ⟨"Call1", none, [.var ⟨reg, 0⟩, .var ⟨0, 0⟩], ⟨0, 4, "Call1", []⟩⟩

/-- A call, and a dispatch with another one behind the guard of the completed state. -/
def callThenDispatch : List Stmt :=
  [callStmt 3, .ifElse (.truthy ⟨1, 0⟩)
    [.op ⟨"CallBuiltin", none, [.var ⟨2, 0⟩, .const 44], ⟨4, 4, "CallBuiltin", []⟩⟩] [callStmt 4]]

/-- The call in front of the dispatch is gone. -/
theorem callThenDispatch_loses_work :
    linearizeFunction true "run" callThenDispatch = [callStmt 4] ∧
      ∀ m, ¬ KeepsWork m true "run" callThenDispatch := by
  have hlinearized : linearized callThenDispatch = some [callStmt 4] := rfl
  refine ⟨rfl, fun m h => ?_⟩
  have hle := collectActiveWork_length_le (h rfl _ hlinearized) (by decide)
  revert hle
  decide

end Hermes.Structure
