-- SUMMARY: Recovery of classes, and exactly when it keeps everything outside the class.
import DroidsawHermes.Decompile.PatternRewrite
import DroidsawHermes.Lib.Scan
import DroidsawHermes.Structure.ApplyDeep
import DroidsawHermes.Structure.FormatOp
import DroidsawHermes.Structure.Verify

/-!
# Class recovery

`recover_class` of `decompile/sugar.rs`. Behind the creation of a class it goes over stores,
definitions and environment stores, and makes the body of the class of what it finds.
-/

namespace Hermes.Structure

open Decompile Scan

/-! ## Operations -/

def isClassCreation (o : SsaOp) : Bool :=
  ["CreateBaseClass", "CreateBaseClassLongIndex", "CreateDerivedClass",
    "CreateDerivedClassLongIndex"].contains o.name

def isClosureCreation (o : SsaOp) : Bool :=
  startsWith o.name "CreateClosure" || startsWith o.name "CreateAsyncClosure" ||
    startsWith o.name "CreateGeneratorClosure"

/-- The definitions that the scan goes over. -/
def isClassDefinition (o : SsaOp) : Bool :=
  isClosureCreation o || startsWith o.name "LoadConst" || o.name == "CreatePrivateName" ||
    o.name == "GetGlobalObject"

def isMemberPut (o : SsaOp) : Bool :=
  startsWith o.name "PutNewOwnById" || startsWith o.name "PutNewOwnNEById" ||
    startsWith o.name "DefineOwnByVal" || startsWith o.name "DefineOwnById"

def isEnvironmentStore (o : SsaOp) : Bool :=
  startsWith o.name "StoreToEnvironment" || startsWith o.name "StoreNPToEnvironment"

/-- The name of a variable operand. -/
def varName (o : SsaOp) (i : Nat) : Option String :=
  (o.operands[i]?.bind SsaOperand.var?).map VarId.display

def memberKey (o : SsaOp) : Option String := o.operands.findSome? SsaOperand.string?

/-- `load_const_literal`; `doubleText` prints a finite double. -/
def loadConstLiteral (doubleText : UInt64 → String) (o : SsaOp) : Option String :=
  match o.name, o.operands[1]? with
  | "LoadConstZero", _ => some "0"
  | "LoadConstUndefined", _ => some "undefined"
  | "LoadConstNull", _ => some "null"
  | "LoadConstTrue", _ => some "true"
  | "LoadConstFalse", _ => some "false"
  | "LoadConstEmpty", _ => some "undefined"
  | "LoadConstInt", some (SsaOperand.const n) => some (toString n)
  | "LoadConstUInt8", some (SsaOperand.const n) => some (toString n)
  | "LoadConstDouble", some (SsaOperand.constDouble bits) => some (f64Text doubleText bits)
  | _, _ => none

/-! ## The pass -/

/-- The definitions of a list, nested ones left out. -/
def levelDefs (stmts : List Stmt) : List (String × SsaOp) :=
  stmts.filterMap fun
    | .assign dst o _ => some (dst, o)
    | _ => none

/-- What is known of the variables of a list, in the order of insertion. -/
structure ClassMaps where
  privateNames : List (String × String)
  closureVars : List String
  literals : List (String × String)

def privateName (o : SsaOp) : Option String :=
  if o.name = "CreatePrivateName" then o.operands[1]?.bind SsaOperand.string? else none

section Pass

variable (doubleText : UInt64 → String)

def classMaps (defs : List (String × SsaOp)) : ClassMaps where
  privateNames := defs.filterMap fun d => (privateName d.2).map (d.1, ·)
  closureVars := (defs.filter fun d => isClosureCreation d.2).map Prod.fst
  literals := defs.filterMap fun d => (loadConstLiteral doubleText d.2).map (d.1, ·)

/-- The last entry of a name. -/
def lastEntry (entries : List (String × String)) (name : String) : Option String :=
  (entries.filter fun e => e.1 = name).getLast?.map Prod.snd

/-- What a consumed statement adds to the class. -/
inductive ClassEntry where
  | method (name value : String)
  | field (f : StaticField)
  | silent
  deriving DecidableEq

/-- A definition on the class whose value is no closure. -/
def isFieldDefinition (maps : ClassMaps) (cls : String) (o : SsaOp) : Bool :=
  startsWith o.name "DefineOwnById" && varName o 0 == some cls &&
    !(varName o 1).any maps.closureVars.contains

def isPrivateField (cls : String) (o : SsaOp) : Bool :=
  o.name == "AddOwnPrivateBySym" && varName o 0 == some cls

/-- The value as it is shown. -/
def fieldValue (maps : ClassMaps) (value : String) : String :=
  (lastEntry maps.literals value).getD value

/-- What the scan does with an operation; it stops where there is nothing. -/
def classEntry (maps : ClassMaps) (cls : String) (o : SsaOp) : Option ClassEntry :=
  if isFieldDefinition maps cls o then
    match memberKey o, varName o 1 with
    | some name, some value => some (.field ⟨name, fieldValue maps value, false⟩)
    | _, _ => none
  else if isPrivateField cls o then
    match (varName o 2).bind (lastEntry maps.privateNames), varName o 1 with
    | some name, some value => some (.field ⟨name, fieldValue maps value, true⟩)
    | _, _ => none
  else if isMemberPut o then
    match memberKey o with
    | some name => some (.method name ((varName o 1).getD "?"))
    | none => some .silent
  else if isEnvironmentStore o then some .silent
  else none

def Stmt.classEntry (maps : ClassMaps) (cls : String) : Stmt → Option ClassEntry
  | .op o => Structure.classEntry maps cls o
  | .assign _ o _ => if isClassDefinition o then some .silent else none
  | _ => none

def methodsOf (entries : List ClassEntry) : List (String × String) :=
  entries.filterMap fun
    | .method name value => some (name, value)
    | _ => none

def fieldsOf (entries : List ClassEntry) : List StaticField :=
  entries.filterMap fun
    | .field f => some f
    | _ => none

def classParent (o : SsaOp) : Option String :=
  if containsText o.name "Derived" then
    o.operands[1]?.map fun operand => (operand.var?.map VarId.display).getD "?"
  else none

/-- The statements that the scan goes over. -/
def classRun (maps : ClassMaps) (cls : String) (rest : List Stmt) : List Stmt :=
  rest.takeWhile fun stmt => (stmt.classEntry maps cls).isSome

def classEntries (maps : ClassMaps) (cls : String) (rest : List Stmt) : List ClassEntry :=
  (classRun maps cls rest).filterMap (Stmt.classEntry maps cls)

def classStep (maps : ClassMaps) (stmt : Stmt) (rest : List Stmt) : List Stmt × Nat :=
  match stmt with
  | .assign dst o _ =>
    let entries := classEntries maps dst rest
    if isClassCreation o && !((methodsOf entries).isEmpty && (fieldsOf entries).isEmpty) then
      ([.class dst (classParent o) (methodsOf entries) (fieldsOf entries)],
        (classRun maps dst rest).length)
    else ([stmt], 0)
  | _ => ([stmt], 0)

def recoverClassOneLevel (stmts : List Stmt) : List Stmt :=
  scan (classStep (classMaps doubleText (levelDefs stmts))) 0 stmts

def recoverClass (stmts : List Stmt) : List Stmt :=
  applyDeep (recoverClassOneLevel doubleText) stmts

end Pass

/-! ## What may be removed -/

section Spec

variable (doubleText : UInt64 → String) (defs : List (String × SsaOp)) (uses : String → Nat)

/-- Every definition of the variable has the text, and there is one. -/
def definedAs (text : SsaOp → Option String) (v name : String) : Bool :=
  (defs.any fun d => d.1 == v) && defs.all fun d => d.1 != v || text d.2 == some name

/-- A value is shown as its variable or its literal. -/
def showsValue (v text : String) : Bool :=
  text == v || definedAs defs (loadConstLiteral doubleText) v text

/-- The store puts the entry into the class or its prototype. A `DefineOwnById` on the class
itself is a method for a closure and a field otherwise; every other put is a method, whatever its
value. -/
def storesMember (cls : String) (proto : Option String) (o : SsaOp) : ClassEntry → Bool
  | .method name value =>
    isMemberPut o && !isFieldDefinition (classMaps doubleText defs) cls o &&
      (varName o 0 == some cls || ((varName o 0).isSome && varName o 0 == proto)) &&
        memberKey o == some name && varName o 1 == some value
  | .field f =>
    (if f.isPrivate then isPrivateField cls o &&
        (varName o 2).any fun sym => definedAs defs privateName sym f.name
      else isFieldDefinition (classMaps doubleText defs) cls o && memberKey o == some f.name) &&
      (varName o 1).any fun v => showsValue doubleText defs v f.value
  | .silent => false

/-- The names that the stores among the statements read. -/
def storeReads (stmts : List Stmt) : List String :=
  stmts.flatMap fun
    | .op o => operandNames o
    | _ => []

/-- A consumed statement: a store of a member, or a definition that only these stores use. -/
def isMember (cls : String) (proto : Option String) (consumed : List Stmt) (stmt : Stmt)
    (entry : ClassEntry) : Bool :=
  match stmt with
  | .op o => storesMember doubleText defs cls proto o entry
  | .assign dst o _ =>
    isClassDefinition o && entry == .silent && uses dst == (storeReads consumed).count dst
  | _ => false

/-- The variable of the prototype, which the creation writes as well. -/
def classProto (o : SsaOp) : Option String := varName o 1

/-- The second list is the first one, but a class may stand for its creation and the
statements of its members. -/
inductive ClassList : List Stmt → List Stmt → Prop where
  | nil : ClassList [] []
  | keep {stmt : Stmt} {rest out : List Stmt} (h : ClassList rest out) :
    ClassList (stmt :: rest) (stmt :: out)
  | cluster {dst : String} {o : SsaOp} {blockId : Option BlockId} {parent : Option String}
    {consumed left out : List Stmt} {entries : List ClassEntry}
    (hcreate : isClassCreation o = true)
    (hmembers : List.Forall₂ (fun stmt entry =>
      isMember doubleText defs uses dst (classProto o) consumed stmt entry = true) consumed entries)
    (h : ClassList left out) :
    ClassList (.assign dst o blockId :: (consumed ++ left))
      (.class dst parent (methodsOf entries) (fieldsOf entries) :: out)

/-- What a class stands for are its members and their definitions. -/
def properClass (stmt : Stmt) (rest : List Stmt) : Bool :=
  match stmt with
  | .assign dst o _ =>
    let maps := classMaps doubleText defs
    let entries := classEntries maps dst rest
    if isClassCreation o && !((methodsOf entries).isEmpty && (fieldsOf entries).isEmpty) then
      (classRun maps dst rest).all fun stmt => (stmt.classEntry maps dst).any
        (isMember doubleText defs uses dst (classProto o) (classRun maps dst rest) stmt)
    else true
  | _ => true

end Spec

/-- In every list, only what belongs to the class is removed. Uses are those of the whole
tree. -/
def KeepsOutsideClasses (doubleText : UInt64 → String) (stmts : List Stmt) : Prop :=
  ∀ l ∈ levels (recoverClassOneLevel doubleText) stmts,
    ClassList doubleText (levelDefs l) (fun name => (readsOf stmts).count name) l
      (recoverClassOneLevel doubleText l)

/-- Every class that is made has only members of its own. -/
def ProperClasses (doubleText : UInt64 → String) (stmts : List Stmt) : Prop :=
  ∀ l ∈ levels (recoverClassOneLevel doubleText) stmts,
    ∀ place ∈ visited (classStep (classMaps doubleText (levelDefs l))) 0 l,
      properClass doubleText (levelDefs l) (fun name => (readsOf stmts).count name)
        place.1 place.2 = true

/-! ## One list -/

section OneList

variable {doubleText : UInt64 → String} {defs : List (String × SsaOp)} {uses : String → Nat}

variable (doubleText defs uses) in
/-- A step makes a class, or keeps the statement and asks for nothing. -/
theorem classStep_cases (stmt : Stmt) (rest : List Stmt) :
    (∃ dst o blockId, stmt = .assign dst o blockId ∧ isClassCreation o = true ∧
      classStep (classMaps doubleText defs) stmt rest =
        ([.class dst (classParent o) (methodsOf (classEntries (classMaps doubleText defs) dst rest))
            (fieldsOf (classEntries (classMaps doubleText defs) dst rest))],
          (classRun (classMaps doubleText defs) dst rest).length) ∧
      properClass doubleText defs uses stmt rest =
        (classRun (classMaps doubleText defs) dst rest).all fun s =>
          (s.classEntry (classMaps doubleText defs) dst).any (isMember doubleText defs uses dst
            (classProto o) (classRun (classMaps doubleText defs) dst rest) s)) ∨
    (classStep (classMaps doubleText defs) stmt rest = ([stmt], 0) ∧
      properClass doubleText defs uses stmt rest = true) := by
  cases stmt with
  | assign dst o blockId =>
    simp only [classStep, properClass]
    split
    · next hmade =>
      rw [Bool.and_eq_true] at hmade
      exact Or.inl ⟨dst, o, blockId, rfl, hmade.1, rfl, rfl⟩
    · exact Or.inr ⟨rfl, rfl⟩
  | _ => exact Or.inr ⟨rfl, rfl⟩

/-- The entries of a run, one for each of its statements. -/
theorem forall₂_filterMap {α β : Type} {f : α → Option β} {p : α → β → Bool} {l : List α}
    (h : ∀ x ∈ l, (f x).any (p x) = true) :
    List.Forall₂ (fun x y => p x y = true) l (l.filterMap f) := by
  induction l with
  | nil => exact .nil
  | cons x l ih =>
    have hx := h x List.mem_cons_self
    cases hf : f x with
    | none => simp [hf] at hx
    | some y =>
      rw [hf] at hx
      rw [List.filterMap_cons_some hf]
      exact .cons hx (ih fun z hz => h z (List.mem_cons_of_mem x hz))

theorem classRun_append_drop (maps : ClassMaps) (cls : String) (rest : List Stmt) :
    classRun maps cls rest ++ rest.drop (classRun maps cls rest).length = rest :=
  takeWhile_append_drop _ rest

/-- Where the classes have only members of their own, nothing else is removed. -/
theorem classList_of_proper {stmts : List Stmt}
    (h : ∀ place ∈ visited (classStep (classMaps doubleText defs)) 0 stmts,
      properClass doubleText defs uses place.1 place.2 = true) :
    ClassList doubleText defs uses stmts (scan (classStep (classMaps doubleText defs)) 0 stmts) := by
  induction stmts using scan_induction (classStep (classMaps doubleText defs)) with
  | nil => exact .nil
  | cons stmt rest ih =>
    rw [visited_cons, List.forall_mem_cons] at h
    have hrest := ih h.2
    rw [scan_cons]
    rcases classStep_cases doubleText defs uses stmt rest with
      ⟨dst, o, blockId, rfl, hcreate, hstep, hproper⟩ | ⟨hstep, -⟩
    · rw [hstep] at hrest ⊢
      have hsplit := classRun_append_drop (classMaps doubleText defs) dst rest
      have hmembers := h.1
      rw [hproper, List.all_eq_true] at hmembers
      have hlist : Stmt.assign dst o blockId :: rest = .assign dst o blockId ::
          (classRun (classMaps doubleText defs) dst rest ++
            rest.drop (classRun (classMaps doubleText defs) dst rest).length) := by
        rw [hsplit]
      rw [hlist]
      exact .cluster hcreate (forall₂_filterMap hmembers) hrest
    · rw [hstep] at hrest ⊢
      exact .keep hrest

/-! ## Nothing but members -/

theorem lastEntry_of_definedAs {text : SsaOp → Option String} {v name : String}
    (h : definedAs defs text v name = true) :
    lastEntry (defs.filterMap fun d => (text d.2).map (d.1, ·)) v = some name := by
  rw [definedAs, Bool.and_eq_true, List.any_eq_true, List.all_eq_true] at h
  obtain ⟨⟨d, hd, hv⟩, hall⟩ := h
  have htext : ∀ d ∈ defs, d.1 = v → text d.2 = some name := by
    intro d hd hv
    simpa [hv] using hall d hd
  rw [beq_iff_eq] at hv
  have honly : ∀ e ∈ (defs.filterMap fun d => (text d.2).map (d.1, ·)).filter
      (fun e : String × String => e.1 = v), e.2 = name := by
    intro e he
    obtain ⟨he, hev⟩ := List.mem_filter.mp he
    obtain ⟨d, hd, hde⟩ := List.mem_filterMap.mp he
    obtain ⟨t, ht, rfl⟩ := Option.map_eq_some_iff.mp hde
    exact Option.some.inj (ht.symm.trans (htext d hd (by simpa using hev)))
  have hmem : (v, name) ∈ (defs.filterMap fun d => (text d.2).map (d.1, ·)).filter
      fun e : String × String => e.1 = v := by
    refine List.mem_filter.mpr ⟨List.mem_filterMap.mpr ⟨d, hd, ?_⟩, by simp⟩
    rw [htext d hd hv, hv]
    rfl
  rw [lastEntry]
  cases hlast : ((defs.filterMap fun d => (text d.2).map (d.1, ·)).filter
      fun e : String × String => e.1 = v).getLast? with
  | none => rw [List.getLast?_eq_none_iff.mp hlast] at hmem; cases hmem
  | some e => rw [Option.map_some, honly e (List.mem_of_getLast? hlast)]

def ClassEntry.sameKind : ClassEntry → ClassEntry → Bool
  | .method _ _, .method _ _ => true
  | .field _, .field _ => true
  | .silent, .silent => true
  | _, _ => false

theorem not_isMemberPut_of_isPrivateField {cls : String} {o : SsaOp}
    (h : isPrivateField cls o = true) :
    isMemberPut o = false ∧ ∀ maps, isFieldDefinition maps cls o = false := by
  rw [isPrivateField, Bool.and_eq_true, beq_iff_eq] at h
  have hput : isMemberPut o = false := by
    simp only [isMemberPut, h.1]
    decide
  have hdefine : startsWith o.name "DefineOwnById" = false := by
    rw [h.1]
    decide
  exact ⟨hput, fun maps => by simp [isFieldDefinition, hdefine]⟩

theorem exists_of_forall₂ {α β : Type} {r : α → β → Prop} {l : List α} {l' : List β}
    (h : List.Forall₂ r l l') {x : α} (hx : x ∈ l) : ∃ y, r x y := by
  induction h with
  | nil => cases hx
  | cons hr h ih =>
    rcases List.mem_cons.mp hx with rfl | hx
    · exact ⟨_, hr⟩
    · exact ih hx

/-- The scan goes over what stores a member, and takes it for a member of the same kind. -/
theorem classEntry_of_storesMember {cls : String} {proto : Option String} {o : SsaOp}
    {entry : ClassEntry} (h : storesMember doubleText defs cls proto o entry = true) :
    ∃ e, classEntry (classMaps doubleText defs) cls o = some e ∧ entry.sameKind e = true := by
  cases entry with
  | method name value =>
    simp only [storesMember, Bool.and_eq_true, Bool.not_eq_true', beq_iff_eq] at h
    obtain ⟨⟨⟨⟨hput, hfield⟩, -⟩, hname⟩, hvalue⟩ := h
    have hprivate : isPrivateField cls o = false := by
      by_contra hprivate
      rw [Bool.not_eq_false] at hprivate
      rw [(not_isMemberPut_of_isPrivateField hprivate).1] at hput
      cases hput
    exact ⟨.method name value, by simp [classEntry, hfield, hprivate, hput, hname, hvalue], rfl⟩
  | field f =>
    simp only [storesMember, Bool.and_eq_true, Option.any_eq_true] at h
    obtain ⟨hname, value, hvalue, -⟩ := h
    split at hname
    · rw [Bool.and_eq_true, Option.any_eq_true] at hname
      obtain ⟨hprivate, sym, hsym, hdefined⟩ := hname
      have hfield := (not_isMemberPut_of_isPrivateField hprivate).2 (classMaps doubleText defs)
      have hlookup : lastEntry (classMaps doubleText defs).privateNames sym = some f.name :=
        lastEntry_of_definedAs hdefined
      have hentry : classEntry (classMaps doubleText defs) cls o =
          some (.field ⟨f.name, fieldValue (classMaps doubleText defs) value, true⟩) := by
        simp [classEntry, hfield, hprivate, hsym, hlookup, hvalue]
      exact ⟨_, hentry, rfl⟩
    · rw [Bool.and_eq_true, beq_iff_eq] at hname
      have hentry : classEntry (classMaps doubleText defs) cls o =
          some (.field ⟨f.name, fieldValue (classMaps doubleText defs) value, false⟩) := by
        simp [classEntry, hname.1, hname.2, hvalue]
      exact ⟨_, hentry, rfl⟩
  | silent => cases h

theorem classEntry_of_isMember {cls : String} {proto : Option String} {consumed : List Stmt}
    {stmt : Stmt} {entry : ClassEntry}
    (h : isMember doubleText defs uses cls proto consumed stmt entry = true) :
    ∃ e, stmt.classEntry (classMaps doubleText defs) cls = some e ∧ entry.sameKind e = true := by
  cases stmt with
  | op o => exact classEntry_of_storesMember h
  | assign dst o blockId =>
    simp only [isMember, Bool.and_eq_true, beq_iff_eq] at h
    refine ⟨.silent, by simp [Stmt.classEntry, h.1.1], ?_⟩
    rw [h.1.2]
    rfl
  | _ => cases h

/-- Members that make the same class are the ones that the scan finds. -/
theorem isMember_classEntry {cls : String} {proto : Option String} {all consumed : List Stmt}
    {entries : List ClassEntry}
    (h : List.Forall₂ (fun stmt entry =>
      isMember doubleText defs uses cls proto all stmt entry = true) consumed entries)
    (hmethods : methodsOf entries =
      methodsOf (consumed.filterMap (Stmt.classEntry (classMaps doubleText defs) cls)))
    (hfields : fieldsOf entries =
      fieldsOf (consumed.filterMap (Stmt.classEntry (classMaps doubleText defs) cls))) :
    ∀ stmt ∈ consumed, (stmt.classEntry (classMaps doubleText defs) cls).any
      (isMember doubleText defs uses cls proto all stmt) = true := by
  induction h with
  | nil => exact fun stmt hstmt => nomatch hstmt
  | @cons stmt entry consumed entries hmember h ih =>
    obtain ⟨e, he, hkind⟩ := classEntry_of_isMember hmember
    rw [List.filterMap_cons_some he] at hmethods hfields
    rw [List.forall_mem_cons, he]
    have heq : entry = e ∧
        methodsOf entries =
          methodsOf (consumed.filterMap (Stmt.classEntry (classMaps doubleText defs) cls)) ∧
        fieldsOf entries =
          fieldsOf (consumed.filterMap (Stmt.classEntry (classMaps doubleText defs) cls)) := by
      cases entry with
      | method name value =>
        cases e with
        | method name' value' =>
          obtain ⟨hpair, hrest⟩ := List.cons.inj hmethods
          cases hpair
          exact ⟨rfl, hrest, hfields⟩
        | _ => cases hkind
      | field f =>
        cases e with
        | field f' =>
          obtain ⟨hf, hrest⟩ := List.cons.inj hfields
          cases hf
          exact ⟨rfl, hmethods, hrest⟩
        | _ => cases hkind
      | silent =>
        cases e with
        | silent => exact ⟨rfl, hmethods, hfields⟩
        | _ => cases hkind
    obtain ⟨rfl, hmethods, hfields⟩ := heq
    exact ⟨hmember, ih hmethods hfields⟩

theorem not_isClassDefinition {o : SsaOp} (h : isClassCreation o = true) :
    isClassDefinition o = false := by
  simp only [isClassCreation, List.contains_eq_mem, List.mem_cons, List.not_mem_nil, or_false,
    decide_eq_true_eq] at h
  rcases h with h | h | h | h <;> simp only [isClassDefinition, isClosureCreation, h] <;> decide

/-- A statement that the scan would go over does not stay in front of what it leaves. -/
theorem classRun_eq_nil {cls : String} {left out : List Stmt}
    (h : ClassList doubleText defs uses left out)
    (hout : out = scan (classStep (classMaps doubleText defs)) 0
      (left.drop (classRun (classMaps doubleText defs) cls left).length)) :
    classRun (classMaps doubleText defs) cls left = [] := by
  cases left with
  | nil => rfl
  | cons x left =>
    by_contra hrun
    have hx : (x.classEntry (classMaps doubleText defs) cls).isSome = true := by
      by_contra hx
      exact hrun (List.takeWhile_cons_of_neg hx)
    have hstop := List.head?_dropWhile_not
      (fun s : Stmt => (s.classEntry (classMaps doubleText defs) cls).isSome) (x :: left)
    rw [classRun, drop_takeWhile] at hout
    cases h with
    | @keep _ _ out h =>
      cases hdrop : (x :: left).dropWhile
          fun s : Stmt => (s.classEntry (classMaps doubleText defs) cls).isSome with
      | nil =>
        rw [hdrop] at hout
        cases hout
      | cons z zs =>
        rw [hdrop] at hout hstop
        rw [scan_cons] at hout
        rcases classStep_cases doubleText defs uses z zs with
          ⟨dst, o, blockId, -, -, hstep, -⟩ | ⟨hstep, -⟩
        · rw [hstep] at hout
          rw [(List.cons.inj hout).1] at hx
          cases hx
        · rw [hstep] at hout
          rw [(List.cons.inj hout).1] at hx
          simp only [List.head?_cons] at hstop
          rw [hx] at hstop
          cases hstop
    | cluster hcreate hmembers h =>
      simp [Stmt.classEntry, not_isClassDefinition hcreate] at hx

theorem proper_of_classList {stmts out : List Stmt} (h : ClassList doubleText defs uses stmts out)
    (hout : out = scan (classStep (classMaps doubleText defs)) 0 stmts) :
    ∀ place ∈ visited (classStep (classMaps doubleText defs)) 0 stmts,
      properClass doubleText defs uses place.1 place.2 = true := by
  induction h with
  | nil => exact fun place hplace => nomatch hplace
  | @keep stmt rest out h ih =>
    rw [scan_cons] at hout
    rw [visited_cons, List.forall_mem_cons]
    rcases classStep_cases doubleText defs uses stmt rest with
      ⟨dst, o, blockId, rfl, -, hstep, -⟩ | ⟨hstep, hproper⟩
    · rw [hstep] at hout
      cases (List.cons.inj hout).1
    · rw [hstep] at hout ⊢
      exact ⟨hproper, ih (List.cons.inj hout).2⟩
  | @cluster dst o blockId parent consumed left out entries hcreate hmembers h ih =>
    rw [scan_cons] at hout
    rw [visited_cons, List.forall_mem_cons]
    rcases classStep_cases doubleText defs uses
        (.assign dst o blockId) (consumed ++ left) with
      ⟨dst', o', blockId', heq, -, hstep, hproper⟩ | ⟨hstep, -⟩
    · cases heq
      have htaken : ∀ s ∈ consumed,
          (s.classEntry (classMaps doubleText defs) dst).isSome = true := by
        intro s hs
        obtain ⟨entry, hentry⟩ := exists_of_forall₂ hmembers hs
        obtain ⟨e, he, -⟩ := classEntry_of_isMember hentry
        rw [he]
        rfl
      have happend : classRun (classMaps doubleText defs) dst (consumed ++ left) =
          consumed ++ classRun (classMaps doubleText defs) dst left :=
        List.takeWhile_append_of_pos htaken
      rw [hstep] at hout ⊢
      simp only [List.singleton_append] at hout
      obtain ⟨hclass, hrest⟩ := List.cons.inj hout
      rw [happend, List.length_append, List.drop_length_add_append] at hrest
      have hnil := classRun_eq_nil h hrest
      rw [hnil] at hrest
      rw [hnil, List.append_nil] at happend
      rw [happend] at hproper ⊢
      injection hclass with _ _ hmethods hfields
      rw [classEntries, happend] at hmethods hfields
      rw [hproper, List.drop_left' rfl]
      exact ⟨List.all_eq_true.mpr (isMember_classEntry hmembers hmethods hfields), ih hrest⟩
    · rw [hstep] at hout
      cases (List.cons.inj hout).1

end OneList

/-- Everything outside stays exactly if every class has only members of its own. -/
theorem keepsOutsideClasses_iff (doubleText : UInt64 → String) (stmts : List Stmt) :
    KeepsOutsideClasses doubleText stmts ↔ ProperClasses doubleText stmts :=
  forall₂_congr fun _ _ => ⟨fun h => proper_of_classList h rfl, classList_of_proper⟩

/-- `r1_0` is a class with the prototype `r2_0`. -/
def createClass : SsaOp :=
  { name := "CreateBaseClass"
    dst := some ⟨1, 0⟩
    operands := [.dstPlaceholder, .var ⟨2, 0⟩, .var ⟨0, 0⟩, .funcId 3]
    original := ⟨0, 6, "CreateBaseClass", []⟩ }

/-- `r2_0.run = r3_0`. -/
def defineRun : SsaOp :=
  { name := "DefineOwnById"
    dst := none
    operands := [.var ⟨2, 0⟩, .var ⟨3, 0⟩, .const 0, .resolvedString "run"]
    original := ⟨6, 8, "DefineOwnById", []⟩ }

/-- The environment slot 1 becomes `r4_0`. -/
def storeSlot : SsaOp :=
  { name := "StoreToEnvironment"
    dst := none
    operands := [.var ⟨0, 0⟩, .const 1, .var ⟨4, 0⟩]
    original := ⟨14, 4, "StoreToEnvironment", []⟩ }

/-- The store to the environment is gone. -/
theorem class_loses_environment_store :
    recoverClass (fun _ => "") [.assign "r1_0" createClass none, .op defineRun, .op storeSlot] =
        [.class "r1_0" none [("run", "r3_0")] []] ∧
      ¬ KeepsOutsideClasses (fun _ => "")
        [.assign "r1_0" createClass none, .op defineRun, .op storeSlot] := by
  refine ⟨rfl, fun h => ?_⟩
  have hproper := proper_of_classList (h _ List.mem_cons_self) rfl
  have hclass := hproper (.assign "r1_0" createClass none, [.op defineRun, .op storeSlot])
    List.mem_cons_self
  revert hclass
  decide

end Hermes.Structure
