-- SUMMARY: The free-variable check on structured statements: which reads it sees, and when an empty result means that nothing is free.
import DroidsawHermes.Lib.OrdMap
import DroidsawHermes.Lib.Runs
import DroidsawHermes.Structure.Stmt

/-!
# The free-variable check

`collect_free_variables` of `decompile/verify.rs`. The walk collects the writes of
all statements and the reads of the operands, but it passes over conditions,
switch discriminants and the objects of for-in loops.
-/

namespace Hermes.Structure

open Decompile

/-! ## collect_dsts -/

mutual

def collectDsts : Stmt → OrdSet String → OrdSet String
  | .assign dst _ _, defined => defined.insert dst
  | .phiAssign dst _, defined => defined.insert dst
  | .ifElse _ thenBody elseBody, defined =>
    collectDstsAll elseBody (collectDstsAll thenBody defined)
  | .while _ body, defined => collectDstsAll body defined
  | .forIn key _ body, defined => collectDstsAll body (defined.insert key.display)
  | .switch _ cases default, defined => collectDstsAll default (collectDstsCases cases defined)
  | .tryCatch tryBody catchVar catchBody, defined =>
    collectDstsAll catchBody ((collectDstsAll tryBody defined).insert catchVar)
  | .labeled _ body, defined => collectDstsAll body defined
  | .destructure _ bindings, defined => (bindings.map Prod.snd).foldl OrdSet.insert defined
  | .destructureWithDefault .., defined => defined
  | .class name _ _ _, defined => defined.insert name
  | .import name _, defined => defined.insert name
  | .op _, defined => defined
  | .return _, defined | .throw _, defined => defined
  | .exportNamed .., defined | .exportDefault _, defined => defined
  | .break _, defined | .continue _, defined => defined
  | .comment _, defined => defined

/-- `for s in stmts { collect_dsts(s, defined) }`. -/
def collectDstsAll : List Stmt → OrdSet String → OrdSet String
  | [], defined => defined
  | s :: rest, defined => collectDstsAll rest (collectDsts s defined)

def collectDstsCases : List (String × List Stmt) → OrdSet String → OrdSet String
  | [], defined => defined
  | (_, body) :: rest, defined => collectDstsCases rest (collectDstsAll body defined)

end

/-! ## walk_collect -/

/-- What the walk carries along. -/
structure Collected where
  defined : OrdSet String
  used : List String

def Collected.use (w : Collected) (names : List String) : Collected :=
  { w with used := w.used ++ names }

/-- The computed keys of a path. -/
def walkDestructurePathUses : DestructurePath → List String
  | .leaf (.computed v) => [v]
  | .leaf (.static _) => []
  | .nested (.computed v) inner => v :: walkDestructurePathUses inner
  | .nested (.static _) inner => walkDestructurePathUses inner

def operandNames (op : SsaOp) : List String := op.reads.map VarId.display

/-- Neither empty nor a numeral. -/
def isPhiSource (src : String) : Bool := src ≠ "" && !src.toList.all Char.isDigit

/-- One call of `walk_collect`: nothing past depth 100; otherwise the writes of the
list, then `walk` over its statements. -/
def enter (walk : Collected → Collected) (stmts : List Stmt) (depth : Nat) (w : Collected) :
    Collected :=
  if depth > 100 then w else walk { w with defined := collectDstsAll stmts w.defined }

mutual

def walkStmt : Stmt → Nat → Collected → Collected
  | .assign _ op _, _, w => w.use (operandNames op)
  | .phiAssign _ src, _, w => if isPhiSource src then w.use [src] else w
  | .return (some v), _, w => w.use [v.display]
  | .return none, _, w => w
  | .throw v, _, w => w.use [v.display]
  | .ifElse _ thenBody elseBody, depth, w =>
    enter (walkStmts elseBody (depth + 1)) elseBody (depth + 1)
      (enter (walkStmts thenBody (depth + 1)) thenBody (depth + 1) w)
  | .while _ body, depth, w => enter (walkStmts body (depth + 1)) body (depth + 1) w
  | .forIn _ _ body, depth, w => enter (walkStmts body (depth + 1)) body (depth + 1) w
  | .switch _ cases default, depth, w =>
    enter (walkStmts default (depth + 1)) default (depth + 1) (walkCases cases depth w)
  | .tryCatch tryBody catchVar catchBody, depth, w =>
    let tried := enter (walkStmts tryBody (depth + 1)) tryBody (depth + 1) w
    enter (walkStmts catchBody (depth + 1)) catchBody (depth + 1)
      { tried with defined := tried.defined.insert catchVar }
  | .labeled _ body, depth, w => enter (walkStmts body (depth + 1)) body (depth + 1) w
  | .op op, _, w => w.use (operandNames op)
  | .destructure object _, _, w => w.use [object]
  | .destructureWithDefault object targetReceiver _ _ path, _, w =>
    w.use (object :: targetReceiver :: walkDestructurePathUses path)
  | .class _ parent methods staticFields, _, w =>
    w.use (parent.toList ++ methods.map Prod.snd ++ staticFields.map StaticField.value)
  | .import .., _, w => w
  | .exportNamed _ value, _, w => w.use [value]
  | .exportDefault value, _, w => w.use [value]
  | .break _, _, w | .continue _, _, w => w
  | .comment _, _, w => w

/-- The second pass of `walk_collect`. -/
def walkStmts : List Stmt → Nat → Collected → Collected
  | [], _, w => w
  | s :: rest, depth, w => walkStmts rest depth (walkStmt s depth w)

def walkCases : List (String × List Stmt) → Nat → Collected → Collected
  | [], _, w => w
  | (_, body) :: rest, depth, w =>
    walkCases rest depth (enter (walkStmts body (depth + 1)) body (depth + 1) w)

end

def walkCollect (stmts : List Stmt) (depth : Nat) (w : Collected) : Collected :=
  enter (walkStmts stmts depth) stmts depth w

/-! ## collect_free_variables -/

/-- `r` and digits, an underscore and a zero. -/
def isVersionZeroReg (name : String) : Bool :=
  match name.toList with
  | 'r' :: rest =>
    let reg := rest.takeWhile (· ≠ '_')
    rest.dropWhile (· ≠ '_') = ['_', '0'] && !reg.isEmpty && reg.all Char.isDigit
  | _ => false

/-- `a0` to `a{n-1}`. -/
def paramNames (paramCount : Nat) : List String :=
  (List.range paramCount).map fun i => "a" ++ Nat.repr i

/-- Sorted, without adjacent repeats. -/
def collectFreeVariables (stmts : List Stmt) (paramCount : Nat) : List String :=
  let w := walkCollect stmts 0 ⟨(paramNames paramCount).foldl OrdSet.insert OrdSet.empty, []⟩
  let free := w.used.filter fun name => name ∉ w.defined.keys && !isVersionZeroReg name
  Runs.heads (free.mergeSort fun a b => a ≤ b)

/-! ## Reads and writes of a tree -/

/-- The variables that a condition reads. -/
def Condition.reads : Condition → List VarId
  | .truthy v | .falsy v | .isUndefined v | .notUndefined v => [v]
  | .compare _ left right => [left, right]

namespace Stmt

/-- The names that the statement itself writes. -/
def writes : Stmt → List String
  | .assign dst _ _ => [dst]
  | .phiAssign dst _ => [dst]
  | .forIn key _ _ => [key.display]
  | .tryCatch _ catchVar _ => [catchVar]
  | .destructure _ bindings => bindings.map Prod.snd
  | .class name _ _ _ => [name]
  | .import name _ => [name]
  | _ => []

/-- The names that the statement itself reads as a condition, a discriminant or the
object of a for-in loop. -/
def controlReads : Stmt → List String
  | .ifElse cond _ _ => cond.reads.map VarId.display
  | .while cond _ => (cond.toList.flatMap Condition.reads).map VarId.display
  | .forIn _ obj _ => [obj.display]
  | .switch discriminant _ _ => [discriminant.display]
  | _ => []

/-- The names that the statement itself reads anywhere else. A numeral names no
variable. -/
def dataReads : Stmt → List String
  | .assign _ inst _ => operandNames inst
  | .op inst => operandNames inst
  | .phiAssign _ src => if isPhiSource src then [src] else []
  | .return v => v.toList.map VarId.display
  | .throw v => [v.display]
  | .destructure object _ => [object]
  | .destructureWithDefault object targetReceiver _ _ path =>
    object :: targetReceiver :: walkDestructurePathUses path
  | .class _ parent methods staticFields =>
    parent.toList ++ methods.map Prod.snd ++ staticFields.map StaticField.value
  | .exportNamed _ value => [value]
  | .exportDefault value => [value]
  | _ => []

end Stmt

/-- Every name that a tree writes. -/
def writesOf (stmts : List Stmt) : List String := (allOf stmts).flatMap Stmt.writes

/-- Every name that a tree reads. -/
def readsOf (stmts : List Stmt) : List String :=
  (allOf stmts).flatMap fun s => s.dataReads ++ s.controlReads

/-! ## The writes are collected -/

/-- The set has gained the writes of the statements. -/
def Gained (before after : OrdSet String) (stmts : List Stmt) : Prop :=
  ∀ name, name ∈ after.keys ↔ name ∈ before.keys ∨ name ∈ stmts.flatMap Stmt.writes

theorem Gained.trans {a b c : OrdSet String} {ss ts : List Stmt} (hab : Gained a b ss)
    (hbc : Gained b c ts) : Gained a c (ss ++ ts) := by
  intro name
  rw [hbc name, hab name, List.flatMap_append, List.mem_append, or_assoc]

theorem Gained.leaf {a b : OrdSet String} {s : Stmt}
    (h : ∀ name, name ∈ b.keys ↔ name ∈ a.keys ∨ name ∈ s.writes) : Gained a b [s] := by
  intro name
  rw [h name, List.flatMap_singleton]

/-- A statement around its bodies. -/
theorem Gained.block {a b : OrdSet String} {s : Stmt} {ts : List Stmt} (hs : s.writes = [])
    (h : Gained a b ts) : Gained a b (s :: ts) := by
  intro name
  rw [h name, List.flatMap_cons, hs, List.nil_append]

theorem gained_insert (defined : OrdSet String) {s : Stmt} {dst : String} (hs : s.writes = [dst]) :
    Gained defined (defined.insert dst) [s] :=
  .leaf fun name => by rw [OrdSet.mem_insert, hs, List.mem_singleton, or_comm]

theorem gained_refl (defined : OrdSet String) {s : Stmt} (hs : s.writes = []) :
    Gained defined defined [s] :=
  .leaf fun name => by simp [hs]

mutual

theorem collectDsts_gained : ∀ (s : Stmt) (defined : OrdSet String),
    Gained defined (collectDsts s defined) s.all
  | .ifElse _ thenBody elseBody, defined =>
    .block rfl ((collectDstsAll_gained thenBody defined).trans
      (collectDstsAll_gained elseBody (collectDstsAll thenBody defined)))
  | .while _ body, defined => .block rfl (collectDstsAll_gained body defined)
  | .forIn key obj body, defined =>
    (gained_insert defined (s := .forIn key obj body) rfl).trans
      (collectDstsAll_gained body (defined.insert key.display))
  | .switch _ cases default, defined =>
    .block rfl ((collectDstsCases_gained cases defined).trans
      (collectDstsAll_gained default (collectDstsCases cases defined)))
  | .tryCatch tryBody catchVar catchBody, defined => by
    have htry := collectDstsAll_gained tryBody defined
    have hcatch := collectDstsAll_gained catchBody
      ((collectDstsAll tryBody defined).insert catchVar)
    intro name
    rw [collectDsts, hcatch name, OrdSet.mem_insert, htry name, Stmt.all, List.flatMap_cons,
      Stmt.writes, List.flatMap_append, List.mem_append, List.mem_append, List.mem_singleton]
    tauto
  | .labeled _ body, defined => .block rfl (collectDstsAll_gained body defined)
  | .assign .., defined => gained_insert defined rfl
  | .phiAssign .., defined => gained_insert defined rfl
  | .class .., defined => gained_insert defined rfl
  | .import .., defined => gained_insert defined rfl
  | .destructure _ bindings, defined =>
    .leaf fun name => by rw [collectDsts, OrdSet.mem_foldl_insert, Stmt.writes, or_comm]
  | .op _, defined => gained_refl defined rfl
  | .return _, defined => gained_refl defined rfl
  | .throw _, defined => gained_refl defined rfl
  | .destructureWithDefault .., defined => gained_refl defined rfl
  | .exportNamed .., defined => gained_refl defined rfl
  | .exportDefault _, defined => gained_refl defined rfl
  | .break _, defined => gained_refl defined rfl
  | .continue _, defined => gained_refl defined rfl
  | .comment _, defined => gained_refl defined rfl

theorem collectDstsAll_gained : ∀ (stmts : List Stmt) (defined : OrdSet String),
    Gained defined (collectDstsAll stmts defined) (allOf stmts)
  | [], defined => fun name => by simp [collectDstsAll, allOf]
  | s :: rest, defined =>
    (collectDsts_gained s defined).trans (collectDstsAll_gained rest (collectDsts s defined))

theorem collectDstsCases_gained : ∀ (cases : List (String × List Stmt)) (defined : OrdSet String),
    Gained defined (collectDstsCases cases defined) (allOfCases cases)
  | [], defined => fun name => by simp [collectDstsCases, allOfCases]
  | (_, body) :: rest, defined =>
    (collectDstsAll_gained body defined).trans
      (collectDstsCases_gained rest (collectDstsAll body defined))

end

/-! ## The reads that are collected -/

/-- The walk has gone over the statements: it has collected their reads, and nothing
beyond their writes. -/
structure Walked (w w' : Collected) (stmts : List Stmt) : Prop where
  used : ∀ name, name ∈ w'.used ↔ name ∈ w.used ∨ name ∈ stmts.flatMap Stmt.dataReads
  mono : ∀ name ∈ w.defined.keys, name ∈ w'.defined.keys
  bound : ∀ name ∈ w'.defined.keys, name ∈ w.defined.keys ∨ name ∈ stmts.flatMap Stmt.writes

namespace Walked

variable {w w' w'' : Collected} {s : Stmt} {ss ts : List Stmt}

theorem refl (w : Collected) : Walked w w [] :=
  ⟨fun name => by simp, fun _ => id, fun _ => Or.inl⟩

theorem trans (h : Walked w w' ss) (h' : Walked w' w'' ts) : Walked w w'' (ss ++ ts) where
  used name := by rw [h'.used name, h.used name, List.flatMap_append, List.mem_append, or_assoc]
  mono name hname := h'.mono name (h.mono name hname)
  bound name hname := by
    rw [List.flatMap_append, List.mem_append, ← or_assoc]
    exact (h'.bound name hname).imp_left (h.bound name)

/-- A statement that has its reads inside it only. -/
theorem block (hs : s.dataReads = []) (h : Walked w w' ts) : Walked w w' (s :: ts) where
  used name := by rw [h.used name, List.flatMap_cons, hs, List.nil_append]
  mono := h.mono
  bound name hname := by
    rw [List.flatMap_cons, List.mem_append]
    exact (h.bound name hname).imp_right Or.inr

theorem use {names : List String} (w : Collected) (hs : s.dataReads = names) :
    Walked w (w.use names) [s] where
  used name := by rw [Collected.use, List.mem_append, List.flatMap_singleton, hs]
  mono _ := id
  bound _ := Or.inl

theorem perm (h : Walked w w' ss) (hperm : ss.Perm ts) : Walked w w' ts where
  used name := by rw [h.used name, (hperm.flatMap_right Stmt.dataReads).mem_iff]
  mono := h.mono
  bound name hname := by
    rw [← (hperm.flatMap_right Stmt.writes).mem_iff]
    exact h.bound name hname

theorem define {name : String} (w : Collected) (hs : s.dataReads = []) (hname : s.writes = [name]) :
    Walked w { w with defined := w.defined.insert name } [s] where
  used n := by simp [hs]
  mono n hn := OrdSet.mem_insert.mpr (Or.inr hn)
  bound n hn := by
    rw [List.flatMap_singleton, hname, List.mem_singleton]
    exact (OrdSet.mem_insert.mp hn).symm

theorem skip (w : Collected) (hs : s.dataReads = []) : Walked w w [s] := .block hs (.refl w)

/-- The writes of the list first, then its statements. -/
theorem enter {walk : Collected → Collected} {stmts : List Stmt} {depth : Nat}
    (hdepth : depth ≤ 100) (h : ∀ w, Walked w (walk w) (allOf stmts)) (w : Collected) :
    Walked w (enter walk stmts depth w) (allOf stmts) := by
  have hgained := collectDstsAll_gained stmts w.defined
  rw [Structure.enter, if_neg (by omega)]
  refine ⟨(h _).used, fun name hname => ?_, fun name hname => ?_⟩
  · exact (h _).mono name ((hgained name).mpr (Or.inl hname))
  · rcases (h _).bound name hname with hname | hname
    · exact (hgained name).mp hname
    · exact Or.inr hname

end Walked

mutual

theorem walkStmt_walked : ∀ (s : Stmt) (depth : Nat) (w : Collected), depth + s.depth ≤ 100 →
    Walked w (walkStmt s depth w) s.all
  | .ifElse cond thenBody elseBody, depth, w, h => by
    simp only [Stmt.depth] at h
    have hthen := Walked.enter (show depth + 1 ≤ 100 by omega)
      (fun w => walkStmts_walked thenBody (depth + 1) w (by omega))
    have helse := Walked.enter (show depth + 1 ≤ 100 by omega)
      (fun w => walkStmts_walked elseBody (depth + 1) w (by omega))
    exact .block rfl ((hthen w).trans (helse _))
  | .while cond body, depth, w, h => by
    simp only [Stmt.depth] at h
    exact .block rfl (Walked.enter (by omega)
      (fun w => walkStmts_walked body (depth + 1) w (by omega)) w)
  | .forIn key obj body, depth, w, h => by
    simp only [Stmt.depth] at h
    exact .block rfl (Walked.enter (by omega)
      (fun w => walkStmts_walked body (depth + 1) w (by omega)) w)
  | .switch discriminant cases default, depth, w, h => by
    simp only [Stmt.depth] at h
    have hcases := walkCases_walked cases depth w (by omega)
    have hdefault := Walked.enter (show depth + 1 ≤ 100 by omega)
      (fun w => walkStmts_walked default (depth + 1) w (by omega))
    exact .block rfl (hcases.trans (hdefault _))
  | .tryCatch tryBody catchVar catchBody, depth, w, h => by
    simp only [Stmt.depth] at h
    have htry := Walked.enter (show depth + 1 ≤ 100 by omega)
      (fun w => walkStmts_walked tryBody (depth + 1) w (by omega)) w
    have hcatch := Walked.enter (show depth + 1 ≤ 100 by omega)
      (fun w => walkStmts_walked catchBody (depth + 1) w (by omega))
    have hself := fun w => Walked.define (s := .tryCatch tryBody catchVar catchBody) w rfl rfl
    refine ((htry.trans (hself _)).trans (hcatch _)).perm ?_
    rw [List.append_assoc]
    exact List.perm_middle
  | .labeled label body, depth, w, h => by
    simp only [Stmt.depth] at h
    exact .block rfl (Walked.enter (by omega)
      (fun w => walkStmts_walked body (depth + 1) w (by omega)) w)
  | .assign .., _, w, _ => .use w rfl
  | .op _, _, w, _ => .use w rfl
  | .phiAssign dst src, depth, w, _ => by
    by_cases hsrc : isPhiSource src = true
    · simp only [walkStmt, if_pos hsrc]
      exact .use w (by simp [Stmt.dataReads, hsrc])
    · simp only [walkStmt, if_neg hsrc]
      exact .skip w (by simp [Stmt.dataReads, hsrc])
  | .return (some v), _, w, _ => .use w rfl
  | .return none, _, w, _ => .skip w rfl
  | .throw _, _, w, _ => .use w rfl
  | .destructure .., _, w, _ => .use w rfl
  | .destructureWithDefault .., _, w, _ => .use w rfl
  | .class .., _, w, _ => .use w rfl
  | .import .., _, w, _ => .skip w rfl
  | .exportNamed .., _, w, _ => .use w rfl
  | .exportDefault _, _, w, _ => .use w rfl
  | .break _, _, w, _ => .skip w rfl
  | .continue _, _, w, _ => .skip w rfl
  | .comment _, _, w, _ => .skip w rfl

theorem walkStmts_walked : ∀ (stmts : List Stmt) (depth : Nat) (w : Collected),
    depth + depthOf stmts ≤ 100 → Walked w (walkStmts stmts depth w) (allOf stmts)
  | [], _, w, _ => .refl w
  | s :: rest, depth, w, h => by
    simp only [depthOf] at h
    exact (walkStmt_walked s depth w (by omega)).trans
      (walkStmts_walked rest depth _ (by omega))

theorem walkCases_walked : ∀ (cases : List (String × List Stmt)) (depth : Nat) (w : Collected),
    depth + 1 + depthOfCases cases ≤ 100 → Walked w (walkCases cases depth w) (allOfCases cases)
  | [], _, w, _ => .refl w
  | (_, body) :: rest, depth, w, h => by
    simp only [depthOfCases] at h
    exact (Walked.enter (by omega)
      (fun w => walkStmts_walked body (depth + 1) w (by omega)) w).trans
      (walkCases_walked rest depth _ (by omega))

end

/-! ## Free variables -/

/-- A parameter, a register as the function finds it, or written in the tree. -/
def Bound (stmts : List Stmt) (paramCount : Nat) (name : String) : Prop :=
  name ∈ paramNames paramCount ∨ isVersionZeroReg name = true ∨ name ∈ writesOf stmts

instance (stmts : List Stmt) (paramCount : Nat) (name : String) :
    Decidable (Bound stmts paramCount name) :=
  inferInstanceAs (Decidable (_ ∨ _))

/-- The names that are read outside conditions, discriminants and for-in objects. -/
def dataReadsOf (stmts : List Stmt) : List String := (allOf stmts).flatMap Stmt.dataReads

def controlReadsOf (stmts : List Stmt) : List String := (allOf stmts).flatMap Stmt.controlReads

theorem mem_readsOf {stmts : List Stmt} {name : String} :
    name ∈ readsOf stmts ↔ name ∈ dataReadsOf stmts ∨ name ∈ controlReadsOf stmts := by
  simp only [readsOf, dataReadsOf, controlReadsOf, List.mem_flatMap, List.mem_append, and_or_left,
    exists_or]

/-- The check is sound: nothing reported means nothing free, and what is reported is
read and not written. -/
structure CheckSound (stmts : List Stmt) (paramCount : Nat) : Prop where
  complete : collectFreeVariables stmts paramCount = [] →
    ∀ name ∈ readsOf stmts, Bound stmts paramCount name
  reported : ∀ name ∈ collectFreeVariables stmts paramCount,
    name ∈ readsOf stmts ∧ name ∉ writesOf stmts

/-- The check reports the free names among those that it collects. -/
theorem mem_collectFreeVariables {stmts : List Stmt} {paramCount : Nat} {name : String}
    (hdepth : depthOf stmts ≤ 100) :
    name ∈ collectFreeVariables stmts paramCount ↔
      name ∈ dataReadsOf stmts ∧ ¬ Bound stmts paramCount name := by
  have hwalk := fun w => walkStmts_walked stmts 0 w (by omega)
  have hentered := Walked.enter (show 0 ≤ 100 by omega) hwalk
    ⟨(paramNames paramCount).foldl OrdSet.insert OrdSet.empty, []⟩
  have hgained := collectDstsAll_gained stmts
    ((paramNames paramCount).foldl OrdSet.insert OrdSet.empty)
  have hdefined : name ∈ (walkCollect stmts 0
      ⟨(paramNames paramCount).foldl OrdSet.insert OrdSet.empty, []⟩).defined.keys ↔
      name ∈ paramNames paramCount ∨ name ∈ writesOf stmts := by
    have hparams : name ∈ ((paramNames paramCount).foldl OrdSet.insert OrdSet.empty).keys ↔
        name ∈ paramNames paramCount := by
      rw [OrdSet.mem_foldl_insert]
      exact or_iff_left (by simp [OrdSet.empty, OrdMap.empty, OrdMap.keys])
    constructor
    · intro h
      exact (hentered.bound name h).imp_left hparams.mp
    · intro h
      rw [walkCollect, enter, if_neg (by omega)]
      refine (hwalk _).mono name ((hgained name).mpr (h.imp_left hparams.mpr))
  have hused := hentered.used name
  simp only [collectFreeVariables, Runs.mem_heads, List.mem_mergeSort, List.mem_filter,
    Bool.and_eq_true, decide_eq_true_eq, Bool.not_eq_true', hdefined]
  rw [walkCollect, hused]
  simp only [List.not_mem_nil, false_or, dataReadsOf, Bound]
  rw [← Bool.not_eq_true]
  tauto

/-- The check is sound exactly when the control reads are bound, or another read that is
not gives it something to report. -/
theorem checkSound_iff {stmts : List Stmt} (paramCount : Nat) (hdepth : depthOf stmts ≤ 100) :
    CheckSound stmts paramCount ↔
      (∀ name ∈ controlReadsOf stmts, Bound stmts paramCount name) ∨
        ∃ name ∈ dataReadsOf stmts, ¬ Bound stmts paramCount name := by
  have hmem := fun name => @mem_collectFreeVariables stmts paramCount name hdepth
  constructor
  · intro h
    by_cases hfree : ∃ name ∈ dataReadsOf stmts, ¬ Bound stmts paramCount name
    · exact Or.inr hfree
    · left
      have hnil : collectFreeVariables stmts paramCount = [] :=
        List.eq_nil_iff_forall_not_mem.mpr fun name hname => hfree ⟨name, (hmem name).mp hname⟩
      exact fun name hname => h.complete hnil name (mem_readsOf.mpr (Or.inr hname))
  · intro h
    constructor
    · intro hnil name hname
      have hdata : ∀ n ∈ dataReadsOf stmts, Bound stmts paramCount n := by
        intro n hn
        by_contra hfree
        have hreported := (hmem n).mpr ⟨hn, hfree⟩
        rw [hnil] at hreported
        cases hreported
      rcases mem_readsOf.mp hname with hname | hname
      · exact hdata name hname
      · rcases h with hcontrol | ⟨n, hn, hfree⟩
        · exact hcontrol name hname
        · exact absurd (hdata n hn) hfree
    · intro name hname
      obtain ⟨hread, hfree⟩ := (hmem name).mp hname
      exact ⟨mem_readsOf.mpr (Or.inl hread), fun hwritten => hfree (Or.inr (Or.inr hwritten))⟩

/-- A loop whose condition nothing reads or writes otherwise. -/
def unboundLoop : List Stmt := [.while (some (.truthy ⟨1, 1⟩)) [.break none]]

/-- The same loop after an assignment to its condition. -/
def boundLoop : List Stmt :=
  .assign "r1_1"
    { name := "LoadConstTrue"
      dst := some ⟨1, 1⟩
      operands := [.dstPlaceholder]
      original := ⟨0, 2, "LoadConstTrue", [.reg 1]⟩ } none ::
    unboundLoop

theorem checkSound_iff_sample : CheckSound boundLoop 0 :=
  (checkSound_iff 0 (by decide)).mpr (Or.inl (by decide))

/-- A name that only a condition reads is not seen. -/
theorem unboundLoop_not_sound : collectFreeVariables unboundLoop 0 = [] ∧
    "r1_1" ∈ readsOf unboundLoop ∧ ¬ CheckSound unboundLoop 0 := by
  have hnil : collectFreeVariables unboundLoop 0 = [] := by decide +kernel
  refine ⟨hnil, by decide, fun h => ?_⟩
  have hbound := h.complete hnil "r1_1" (by decide)
  exact absurd hbound (by decide)

end Hermes.Structure
