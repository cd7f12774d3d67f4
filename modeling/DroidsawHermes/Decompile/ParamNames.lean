-- SUMMARY: The votes of calls for the names of parameters, and which of them are for arguments.
import DroidsawHermes.Decompile.PatternRewrite
import Mathlib.Data.String.Basic

/-!
# Parameter names

`collect_param_names` of `decompile/ipa.rs`. A call votes for its variables by their number among
the variables of its operands, and its arguments stand at fixed places behind the callee, the
count and `this`.
-/

namespace Hermes.Decompile

/-! ## Targets of calls -/

/-- A function after `optimize`, with the names that it gave to variables. -/
structure NamedFunction where
  body : SsaFunction
  varNames : VarId → Option String

def createPrefixes : List String :=
  ["CreateClosure", "CreateAsyncClosure", "CreateGeneratorClosure"]

def SsaOp.createsClosure (op : SsaOp) : Bool := createPrefixes.any (startsWith op.name)

/-- The function of a closure, where it stands as a number. -/
def SsaOp.constFunction (op : SsaOp) : Option Nat :=
  match op.operands.getLast? with
  | some (SsaOperand.const id) => some (asU32 id)
  | _ => none

/-- `closure_targets`. -/
def SsaFunction.closureTargets (s : SsaFunction) : VarId → Option Nat :=
  lastDef s.ops fun op => if op.createsClosure then op.constFunction else none

def isDirectCall (name : String) : Bool := name = "CallDirect" || name = "CallDirectLongIndex"

def SsaOp.directFunction (op : SsaOp) : Option Nat :=
  match op.original.operands.getLast? with
  | some (Operand.uint v) => some v
  | _ => none

/-- The function that a call is resolved to, and how many of its variables are no arguments. -/
def SsaOp.callTarget (closures : VarId → Option Nat) (op : SsaOp) : Option Nat × Nat :=
  if isDirectCall op.name then (op.directFunction, 0)
  else if startsWith op.name "Call" ∧ ¬ containsText op.name "Builtin" then
    (op.reads.head?.bind closures, 2)
  else (none, 0)

/-! ## Votes -/

structure Vote where
  func : Nat
  param : Nat
  name : String
  deriving DecidableEq, Repr

def isVotable (name : String) : Bool :=
  !startsWith name "r" && !startsWith name "a" && name ≠ "" && isValidJsIdent name

namespace NamedFunction

variable (f : NamedFunction)

def vote (func param : Nat) (v : VarId) : Option Vote :=
  (f.varNames v).bind fun name => if isVotable name then some ⟨func, param, name⟩ else none

/-- The votes of an operation. -/
def votes (op : SsaOp) : List Vote :=
  match op.callTarget f.body.closureTargets with
  | (some target, argStart) =>
    (op.reads.zipIdx.drop argStart).filterMap fun p =>
      f.vote target (asU32 (p.2 - argStart : Nat)) p.1
  | (none, _) => []

end NamedFunction

/-- How often each name was given to a parameter of a function. -/
abbrev Candidates := OrdMap Nat (OrdMap Nat (OrdMap String Nat))

def Candidates.add (c : Candidates) (v : Vote) : Candidates :=
  let params := (c.get? v.func).getD .empty
  let names := (params.get? v.param).getD .empty
  c.insert v.func (params.insert v.param
    (names.insert v.name (min ((names.get? v.name).getD 0 + 1) (2 ^ 32 - 1))))

def candidates (fs : List NamedFunction) : Candidates :=
  (fs.flatMap fun f => f.body.ops.flatMap f.votes).foldl Candidates.add .empty

/-- `max_by_key`: of the names with the most votes, the last one. -/
def bestName (names : OrdMap String Nat) : Option String :=
  (names.toList.foldl (fun best entry =>
    match best with
    | some b => if entry.2 < b.2 then some b else some entry
    | none => some entry) none).map Prod.fst

def collectParamNames (fs : List NamedFunction) (func param : Nat) : Option String :=
  ((candidates fs).get? func).bind fun params => (params.get? param).bind bestName

/-! ## What is passed -/

/-- The place of the first argument. In front of it are the destination, the callee, `this`, and
in the variadic forms the count; a direct call has its function in the place of the callee. -/
def argPlace (name : String) : Option Nat :=
  if isDirectCall name ∨ name = "Call" ∨ name = "CallLong" then some 4
  else if isShortCall name then some 3
  else none

/-- The function of a closure. -/
def SsaOp.createdFunction (op : SsaOp) : Option Nat :=
  match op.operands.getLast? with
  | some (SsaOperand.funcId id) => some id
  | _ => op.constFunction

def SsaFunction.closureFunction (s : SsaFunction) : VarId → Option Nat :=
  lastDef s.ops fun op => if op.createsClosure then op.createdFunction else none

/-- The function that a call calls, directly or through a closure of its caller. -/
def SsaFunction.calledFunction (s : SsaFunction) (op : SsaOp) : Option Nat :=
  if isDirectCall op.name then op.directFunction
  else if (argPlace op.name).isSome then
    (op.operands[1]?.bind SsaOperand.var?).bind s.closureFunction
  else none

/-- The names of registers and parameters. -/
def isGenericName (name : String) : Bool :=
  match name.toList with
  | c :: cs =>
    (c = 'r' || c = 'a') && !cs.isEmpty && cs.all fun d => d.isDigit || d = '_' || d = '.'
  | [] => false

def isInferredName (name : String) : Bool := isValidJsIdent name && !isGenericName name

/-- A variable among operands: its number among the variables, and its place. -/
structure PlacedVar where
  var : VarId
  rank : Nat
  place : Nat

def placedVars : Nat → Nat → List SsaOperand → List PlacedVar
  | _, _, [] => []
  | rank, place, .var v :: operands =>
    ⟨v, rank, place⟩ :: placedVars (rank + 1) (place + 1) operands
  | rank, place, _ :: operands => placedVars rank (place + 1) operands

def SsaOp.placedVars (op : SsaOp) : List PlacedVar := Decompile.placedVars 0 0 op.operands

namespace NamedFunction

variable (f : NamedFunction)

/-- The name of the explicit argument `k`. -/
def argName (op : SsaOp) (k : Nat) : Option String :=
  (argPlace op.name).bind fun first =>
    (op.operands[first + k]?.bind SsaOperand.var?).bind f.varNames

/-- A variable as an argument of the called function. -/
def argVote (op : SsaOp) (x : PlacedVar) : Option Vote :=
  match f.body.calledFunction op, argPlace op.name with
  | some func, some first =>
    if first ≤ x.place then
      (f.varNames x.var).bind fun name =>
        if isInferredName name then some ⟨func, x.place - first, name⟩ else none
    else none
  | _, _ => none

/-- The arguments of an operation that have a name. -/
def argVotes (op : SsaOp) : List Vote := op.placedVars.filterMap (f.argVote op)

end NamedFunction

/-- The name has a vote. -/
def Recorded (c : Candidates) (func param : Nat) (name : String) : Prop :=
  ∃ params names count, c.get? func = some params ∧ params.get? param = some names ∧
    names.get? name = some count

/-- Some call of the function has a variable of the name as this argument. -/
def PassedAs (fs : List NamedFunction) (func param : Nat) (name : String) : Prop :=
  ∃ f ∈ fs, ∃ op ∈ f.body.ops, f.body.calledFunction op = some func ∧
    f.argName op param = some name

structure NamesAligned (fs : List NamedFunction) : Prop where
  calls : ∀ f ∈ fs, ∀ op ∈ f.body.ops, f.votes op = f.argVotes op
  recorded : ∀ func param name, Recorded (candidates fs) func param name →
    PassedAs fs func param name
  returned : ∀ func param name, collectParamNames fs func param = some name →
    PassedAs fs func param name
  contributes : ∀ f ∈ fs, ∀ op ∈ f.body.ops, isDirectCall op.name = false →
    ∀ func param name, f.body.calledFunction op = some func → f.argName op param = some name →
      isInferredName name = true → ⟨func, param, name⟩ ∈ f.votes op

/-- The arguments with a name are resolved, and each has as many variables in front of it as its
number asks for. No other variable is taken for an argument. -/
structure NamedFunction.InPlace (f : NamedFunction) (op : SsaOp) : Prop where
  args : ∀ x ∈ op.placedVars, ∀ name func first, f.varNames x.var = some name →
    isInferredName name = true → f.body.calledFunction op = some func →
      argPlace op.name = some first → first ≤ x.place →
        isVotable name = true ∧ (op.callTarget f.body.closureTargets).1 = some func ∧
          (op.callTarget f.body.closureTargets).2 ≤ x.rank ∧
            asU32 (x.rank - (op.callTarget f.body.closureTargets).2 : Nat) = x.place - first
  others : ∀ x ∈ op.placedVars, ∀ name, f.varNames x.var = some name → isVotable name = true →
    (op.callTarget f.body.closureTargets).1.isSome →
      (op.callTarget f.body.closureTargets).2 ≤ x.rank →
        (f.body.calledFunction op).isSome ∧ ∃ first, argPlace op.name = some first ∧ first ≤ x.place

/-! ## Placed variables -/

/-- Lists that two partial functions make of one list, where one is defined wherever the other
is: they are equal only entry by entry. -/
theorem filterMap_inj {α β : Type} {g h : α → Option β} {l : List α}
    (hdef : ∀ x ∈ l, (g x).isSome → (h x).isSome) :
    l.filterMap g = l.filterMap h ↔ ∀ x ∈ l, g x = h x := by
  refine ⟨fun heq => ?_, List.filterMap_congr⟩
  induction l with
  | nil => simp
  | cons a l ih =>
    have hdef' : ∀ x ∈ l, (g x).isSome → (h x).isSome :=
      fun x hx => hdef x (List.mem_cons_of_mem _ hx)
    have hlength : (l.filterMap g).length ≤ (l.filterMap h).length := by
      simp only [List.length_filterMap_eq_countP]
      exact List.countP_mono_left hdef'
    cases hg : g a with
    | none =>
      cases hh : h a with
      | none =>
        rw [List.filterMap_cons_none hg, List.filterMap_cons_none hh] at heq
        exact List.forall_mem_cons.mpr ⟨hg.trans hh.symm, ih hdef' heq⟩
      | some b =>
        rw [List.filterMap_cons_none hg, List.filterMap_cons_some hh] at heq
        rw [heq, List.length_cons] at hlength
        omega
    | some b =>
      obtain ⟨c, hh⟩ := Option.isSome_iff_exists.mp (hdef a List.mem_cons_self (by rw [hg]; rfl))
      rw [List.filterMap_cons_some hg, List.filterMap_cons_some hh] at heq
      obtain ⟨rfl, htail⟩ := List.cons.inj heq
      exact List.forall_mem_cons.mpr ⟨hg.trans hh.symm, ih hdef' htail⟩

theorem var?_var (v : VarId) : (SsaOperand.var v).var? = some v := rfl

theorem map_placedVars (rank place : Nat) (operands : List SsaOperand) :
    (placedVars rank place operands).map (fun x => (x.var, x.rank)) =
      (operands.filterMap SsaOperand.var?).zipIdx rank := by
  fun_induction placedVars rank place operands with
  | case1 => rfl
  | case2 rank place v operands ih =>
    rw [List.map_cons, ih, List.filterMap_cons_some (var?_var v), List.zipIdx_cons]
  | case3 rank place o operands hvar ih =>
    have hnone : o.var? = none := by
      cases o with
      | var v => exact absurd rfl (hvar v)
      | _ => rfl
    rw [ih, List.filterMap_cons_none hnone]

/-- A variable stands at its place behind as many variables as its number. -/
theorem mem_placedVars {rank place : Nat} {operands : List SsaOperand} {x : PlacedVar} :
    x ∈ placedVars rank place operands ↔ ∃ j, x.place = place + j ∧
      operands[j]? = some (.var x.var) ∧
        x.rank = rank + ((operands.take j).filterMap SsaOperand.var?).length := by
  fun_induction placedVars rank place operands with
  | case1 => simp
  | case2 rank place v operands ih =>
    rw [List.mem_cons, ih]
    constructor
    · rintro (rfl | ⟨j, hplace, hvar, hrank⟩)
      · exact ⟨0, rfl, rfl, rfl⟩
      · refine ⟨j + 1, by omega, hvar, ?_⟩
        rw [List.take_succ_cons, List.filterMap_cons_some (var?_var v), List.length_cons, hrank]
        omega
    · rintro ⟨j, hplace, hvar, hrank⟩
      cases j with
      | zero =>
        obtain ⟨v', rank', place'⟩ := x
        simp only [List.getElem?_cons_zero, Option.some.injEq, SsaOperand.var.injEq] at hvar
        simp only [List.take_zero, List.filterMap_nil, List.length_nil, Nat.add_zero]
          at hrank hplace
        exact .inl (by rw [hvar, hrank, hplace])
      | succ j =>
        rw [List.take_succ_cons, List.filterMap_cons_some (var?_var v), List.length_cons] at hrank
        exact .inr ⟨j, by omega, hvar, by omega⟩
  | case3 rank place o operands hnot ih =>
    have hnone : o.var? = none := by
      cases o with
      | var v => exact absurd rfl (hnot v)
      | _ => rfl
    rw [ih]
    constructor
    · rintro ⟨j, hplace, hvar, hrank⟩
      refine ⟨j + 1, by omega, hvar, ?_⟩
      rw [List.take_succ_cons, List.filterMap_cons_none hnone, hrank]
    · rintro ⟨j, hplace, hvar, hrank⟩
      cases j with
      | zero =>
        rw [List.getElem?_cons_zero, Option.some.injEq] at hvar
        exact absurd hvar (hnot x.var)
      | succ j =>
        rw [List.take_succ_cons, List.filterMap_cons_none hnone] at hrank
        exact ⟨j, by omega, hvar, hrank⟩

theorem length_filterMap_var?_mono {operands : List SsaOperand} {i j : Nat} (h : i ≤ j) :
    ((operands.take i).filterMap SsaOperand.var?).length ≤
      ((operands.take j).filterMap SsaOperand.var?).length :=
  ((List.take_sublist_take_left h).filterMap _).length_le

section Places

variable {op : SsaOp} {x : PlacedVar} {first : Nat}

/-- How many variables stand in front of a place. -/
def SsaOp.leading (op : SsaOp) (first : Nat) : Nat :=
  ((op.operands.take first).filterMap SsaOperand.var?).length

theorem SsaOp.mem_placedVars_iff : x ∈ op.placedVars ↔
    op.operands[x.place]? = some (.var x.var) ∧ x.rank = op.leading x.place := by
  rw [placedVars, mem_placedVars]
  simp only [Nat.zero_add, leading]
  constructor
  · rintro ⟨j, rfl, h⟩
    exact h
  · exact fun h => ⟨x.place, rfl, h⟩

theorem leading_le_rank (hx : x ∈ op.placedVars) (h : first ≤ x.place) :
    op.leading first ≤ x.rank := by
  rw [(SsaOp.mem_placedVars_iff.mp hx).2]
  exact length_filterMap_var?_mono h

theorem rank_lt_leading (hx : x ∈ op.placedVars) (h : x.place < first) :
    x.rank < op.leading first := by
  obtain ⟨hvar, hrank⟩ := SsaOp.mem_placedVars_iff.mp hx
  have hnext : op.leading (x.place + 1) = op.leading x.place + 1 := by
    rw [SsaOp.leading, List.take_add_one, hvar]
    simp [SsaOp.leading, SsaOperand.var?]
  have hle : op.leading (x.place + 1) ≤ op.leading first := length_filterMap_var?_mono h
  omega

end Places

/-! ## Votes by place -/

theorem drop_zipIdx {α : Type} (l : List α) (n k : Nat) :
    (l.zipIdx n).drop k = (l.zipIdx n).filter fun p => n + k ≤ p.2 := by
  induction l generalizing n k with
  | nil => simp
  | cons a l ih =>
    rw [List.zipIdx_cons]
    cases k with
    | zero =>
      rw [List.drop_zero]
      refine (List.filter_eq_self.mpr fun p hp => ?_).symm
      rcases List.mem_cons.mp hp with rfl | hp
      · simp
      · have hle := List.le_snd_of_mem_zipIdx hp
        simp only [decide_eq_true_eq]
        omega
    | succ k =>
      rw [List.drop_succ_cons, ih, List.filter_cons_of_neg (by simp)]
      refine List.filter_congr fun p _ => ?_
      congr 1
      exact propext ⟨fun h => by omega, fun h => by omega⟩

theorem inferred_of_votable {name : String} (h : isVotable name = true) :
    isInferredName name = true := by
  simp only [isVotable, Bool.and_eq_true, Bool.not_eq_true'] at h
  obtain ⟨⟨⟨hr, ha⟩, -⟩, hvalid⟩ := h
  simp only [isInferredName, hvalid, Bool.true_and, Bool.not_eq_true', isGenericName]
  cases hname : name.toList with
  | nil => rfl
  | cons c cs =>
    have hneR : c ≠ 'r' := by
      rintro rfl
      simp [startsWith, hname] at hr
    have hneA : c ≠ 'a' := by
      rintro rfl
      simp [startsWith, hname] at ha
    simp [hneR, hneA]

namespace NamedFunction

variable {f : NamedFunction} {op : SsaOp} {x : PlacedVar} {v : Vote}

/-- The vote that a variable gets. -/
def castVote (f : NamedFunction) (op : SsaOp) (x : PlacedVar) : Option Vote :=
  match op.callTarget f.body.closureTargets with
  | (some target, argStart) =>
    if argStart ≤ x.rank then f.vote target (asU32 (x.rank - argStart : Nat)) x.var else none
  | (none, _) => none

theorem votes_eq (f : NamedFunction) (op : SsaOp) :
    f.votes op = op.placedVars.filterMap (f.castVote op) := by
  rw [votes]
  rcases htarget : op.callTarget f.body.closureTargets with ⟨_ | target, argStart⟩
  · refine (List.filterMap_eq_nil_iff.mpr fun x _ => ?_).symm
    rw [castVote, htarget]
  · have hplaced : op.reads.zipIdx = op.placedVars.map fun x => (x.var, x.rank) :=
      (map_placedVars 0 0 op.operands).symm
    dsimp only
    rw [drop_zipIdx, List.filterMap_filter, hplaced, List.filterMap_map]
    refine List.filterMap_congr fun x _ => ?_
    simp [castVote, htarget]

theorem castVote_eq_some : f.castVote op x = some v ↔ ∃ func name,
    (op.callTarget f.body.closureTargets).1 = some func ∧
      (op.callTarget f.body.closureTargets).2 ≤ x.rank ∧ f.varNames x.var = some name ∧
        isVotable name = true ∧
          v = ⟨func, asU32 (x.rank - (op.callTarget f.body.closureTargets).2 : Nat), name⟩ := by
  rw [castVote]
  rcases op.callTarget f.body.closureTargets with ⟨_ | target, argStart⟩
  · simp
  · dsimp only
    rw [Option.ite_none_right_eq_some, vote, Option.bind_eq_some_iff]
    simp only [Option.ite_none_right_eq_some, Option.some.injEq]
    constructor
    · rintro ⟨hle, name, hname, hvotable, rfl⟩
      exact ⟨target, name, rfl, hle, hname, hvotable, rfl⟩
    · rintro ⟨_, name, rfl, hle, hname, hvotable, rfl⟩
      exact ⟨hle, name, hname, hvotable, rfl⟩

theorem argVote_eq_some : f.argVote op x = some v ↔ ∃ func first name,
    f.body.calledFunction op = some func ∧ argPlace op.name = some first ∧ first ≤ x.place ∧
      f.varNames x.var = some name ∧ isInferredName name = true ∧
        v = ⟨func, x.place - first, name⟩ := by
  rw [argVote]
  constructor
  · intro h
    split at h
    · next func first hfunc hfirst =>
      rw [Option.ite_none_right_eq_some, Option.bind_eq_some_iff] at h
      obtain ⟨hle, name, hname, h⟩ := h
      rw [Option.ite_none_right_eq_some, Option.some.injEq] at h
      exact ⟨func, first, name, hfunc, hfirst, hle, hname, h.1, h.2.symm⟩
    · cases h
  · rintro ⟨func, first, name, hfunc, hfirst, hle, hname, hinferred, rfl⟩
    simp [hfunc, hfirst, hle, hname, hinferred]

/-- Equal votes are equal place by place: where variables in front of the arguments have votes, all
arguments have theirs, and the lists have the same length. -/
theorem votes_eq_argVotes_iff (f : NamedFunction) (op : SsaOp) :
    f.votes op = f.argVotes op ↔ ∀ x ∈ op.placedVars, f.castVote op x = f.argVote op x := by
  rw [votes_eq, argVotes]
  refine ⟨fun heq => ?_, List.filterMap_congr⟩
  have hvotable : ∀ x ∈ op.placedVars, ∀ v, f.argVote op x = some v → isVotable v.name = true := by
    intro x hx v hv
    have hmem : v ∈ op.placedVars.filterMap (f.castVote op) :=
      heq ▸ List.mem_filterMap.mpr ⟨x, hx, hv⟩
    obtain ⟨y, -, hy⟩ := List.mem_filterMap.mp hmem
    obtain ⟨func, name, -, -, -, hvotable, rfl⟩ := castVote_eq_some.mp hy
    exact hvotable
  by_cases hcalled : (f.body.calledFunction op).isSome ∧ (argPlace op.name).isSome
  case neg =>
    -- Nothing is passed, so nothing has a vote.
    have hnone : ∀ x ∈ op.placedVars, f.argVote op x = none := by
      intro x _
      rw [Option.eq_none_iff_forall_ne_some]
      intro v hv
      obtain ⟨func, first, name, hfunc, hfirst, -⟩ := argVote_eq_some.mp hv
      exact hcalled ⟨by rw [hfunc]; rfl, by rw [hfirst]; rfl⟩
    rw [List.filterMap_eq_nil_iff.mpr hnone, List.filterMap_eq_nil_iff] at heq
    exact fun x hx => (heq x hx).trans (hnone x hx).symm
  obtain ⟨func, hfunc⟩ := Option.isSome_iff_exists.mp hcalled.1
  obtain ⟨first, hfirst⟩ := Option.isSome_iff_exists.mp hcalled.2
  cases htarget : (op.callTarget f.body.closureTargets).1 with
  | none =>
    have hnone : ∀ x ∈ op.placedVars, f.castVote op x = none := by
      intro x _
      rw [Option.eq_none_iff_forall_ne_some]
      intro v hv
      obtain ⟨target, name, htarget', -⟩ := castVote_eq_some.mp hv
      rw [htarget] at htarget'
      cases htarget'
    rw [List.filterMap_eq_nil_iff.mpr hnone, eq_comm, List.filterMap_eq_nil_iff] at heq
    exact fun x hx => (hnone x hx).trans (heq x hx).symm
  | some target =>
    by_cases hlead : (op.callTarget f.body.closureTargets).2 ≤ op.leading first
    · -- Every argument stands behind enough variables.
      refine fun x hx => ((filterMap_inj fun y hy hsome => ?_).mp heq.symm x hx).symm
      obtain ⟨v, hv⟩ := Option.isSome_iff_exists.mp hsome
      have hname := hvotable y hy v hv
      obtain ⟨func', first', name, -, hfirst', hle, hvar, -, rfl⟩ := argVote_eq_some.mp hv
      obtain rfl := Option.some.inj (hfirst.symm.trans hfirst')
      exact Option.isSome_iff_exists.mpr ⟨_, castVote_eq_some.mpr
        ⟨target, name, htarget, hlead.trans (leading_le_rank hy hle), hvar, hname, rfl⟩⟩
    · -- No variable in front of the arguments stands behind enough of them.
      refine (filterMap_inj fun y hy hsome => ?_).mp heq
      obtain ⟨v, hv⟩ := Option.isSome_iff_exists.mp hsome
      obtain ⟨target', name, -, hrank, hvar, hname, rfl⟩ := castVote_eq_some.mp hv
      have hle : first ≤ y.place := by
        by_contra hlt
        have hlt' := rank_lt_leading hy (Nat.lt_of_not_le hlt)
        omega
      exact Option.isSome_iff_exists.mpr ⟨_, argVote_eq_some.mpr
        ⟨func, first, name, hfunc, hfirst, hle, hvar, inferred_of_votable hname, rfl⟩⟩

/-- Variables are taken for the arguments that they are exactly when all are in place. -/
theorem votes_eq_iff_inPlace (f : NamedFunction) (op : SsaOp) :
    f.votes op = f.argVotes op ↔ f.InPlace op := by
  rw [votes_eq_argVotes_iff]
  constructor
  · intro h
    constructor
    · intro x hx name func first hname hinferred hfunc hfirst hle
      have harg : f.castVote op x = some ⟨func, x.place - first, name⟩ :=
        (h x hx).trans (argVote_eq_some.mpr ⟨func, first, name, hfunc, hfirst, hle, hname,
          hinferred, rfl⟩)
      obtain ⟨target, name', htarget, hrank, hname', hvotable, hvote⟩ := castVote_eq_some.mp harg
      obtain ⟨rfl, hparam, rfl⟩ := Vote.mk.inj hvote
      exact ⟨hvotable, htarget, hrank, hparam.symm⟩
    · intro x hx name hname hvotable htarget hrank
      obtain ⟨target, htarget⟩ := Option.isSome_iff_exists.mp htarget
      have hcast := (h x hx).symm.trans (castVote_eq_some.mpr ⟨target, name, htarget, hrank, hname,
        hvotable, rfl⟩)
      obtain ⟨func, first, -, hfunc, hfirst, hle, -⟩ := argVote_eq_some.mp hcast
      exact ⟨by rw [hfunc]; rfl, first, hfirst, hle⟩
  · intro h x hx
    refine Option.ext fun v => ?_
    rw [castVote_eq_some, argVote_eq_some]
    constructor
    · rintro ⟨target, name, htarget, hrank, hname, hvotable, rfl⟩
      obtain ⟨hfunc, first, hfirst, hle⟩ := h.others x hx name hname hvotable
        (by rw [htarget]; rfl) hrank
      obtain ⟨func, hfunc⟩ := Option.isSome_iff_exists.mp hfunc
      have hinferred := inferred_of_votable hvotable
      obtain ⟨-, htarget', -, hparam⟩ :=
        h.args x hx name func first hname hinferred hfunc hfirst hle
      obtain rfl := Option.some.inj (htarget.symm.trans htarget')
      exact ⟨target, first, name, hfunc, hfirst, hle, hname, hinferred, by rw [hparam]⟩
    · rintro ⟨func, first, name, hfunc, hfirst, hle, hname, hinferred, rfl⟩
      obtain ⟨hvotable, htarget, hrank, hparam⟩ :=
        h.args x hx name func first hname hinferred hfunc hfirst hle
      exact ⟨func, name, htarget, hrank, hname, hvotable, by rw [hparam]⟩

end NamedFunction

/-! ## Candidates -/

theorem recorded_empty {func param : Nat} {name : String} :
    ¬ Recorded .empty func param name := by
  rintro ⟨params, names, count, hparams, -⟩
  cases hparams

theorem recorded_iff {c : Candidates} {func param : Nat} {name : String} :
    Recorded c func param name ↔ (((c.get? func).bind fun params => params.get? param).bind
      fun names => names.get? name).isSome := by
  simp only [Recorded, Option.isSome_iff_exists, Option.bind_eq_some_iff]
  constructor
  · rintro ⟨params, names, count, hparams, hnames, hcount⟩
    exact ⟨count, names, ⟨params, hparams, hnames⟩, hcount⟩
  · rintro ⟨count, names, ⟨params, hparams, hnames⟩, hcount⟩
    exact ⟨params, names, count, hparams, hnames, hcount⟩

theorem recorded_add {c : Candidates} {v : Vote} {func param : Nat} {name : String} :
    Recorded (c.add v) func param name ↔ v = ⟨func, param, name⟩ ∨ Recorded c func param name := by
  obtain ⟨vf, vp, vn⟩ := v
  rw [recorded_iff, recorded_iff, Candidates.add, OrdMap.get?_insert, Vote.mk.injEq]
  by_cases hf : func = vf
  case neg => simp [hf, Ne.symm hf]
  subst hf
  rw [if_pos rfl, Option.bind_some, OrdMap.get?_insert]
  by_cases hp : param = vp
  case neg => simp [hp, Ne.symm hp, OrdMap.get?_getD_empty]
  subst hp
  rw [if_pos rfl, Option.bind_some, OrdMap.get?_insert]
  by_cases hn : name = vn
  case neg => simp [hn, Ne.symm hn, OrdMap.get?_getD_empty]
  simp [hn]

theorem recorded_foldl {votes : List Vote} {c : Candidates} {func param : Nat} {name : String} :
    Recorded (votes.foldl Candidates.add c) func param name ↔
      ⟨func, param, name⟩ ∈ votes ∨ Recorded c func param name := by
  induction votes generalizing c with
  | nil => simp
  | cons v votes ih =>
    rw [List.foldl_cons, ih, recorded_add, List.mem_cons]
    tauto

/-- What is recorded are the votes. -/
theorem recorded_candidates {fs : List NamedFunction} {func param : Nat} {name : String} :
    Recorded (candidates fs) func param name ↔
      ∃ f ∈ fs, ∃ op ∈ f.body.ops, ⟨func, param, name⟩ ∈ f.votes op := by
  rw [candidates, recorded_foldl, or_iff_left recorded_empty]
  simp only [List.mem_flatMap]

theorem bestName_mem {names : OrdMap String Nat} {name : String} (h : bestName names = some name) :
    ∃ count, names.get? name = some count := by
  obtain ⟨entry, hentry, rfl⟩ := Option.map_eq_some_iff.mp h
  have hmem : ∀ (l : List (String × Nat)) (best : Option (String × Nat)) (e : String × Nat),
      l.foldl (fun best entry =>
        match best with
        | some b => if entry.2 < b.2 then some b else some entry
        | none => some entry) best = some e → e ∈ l ∨ best = some e := by
    intro l
    induction l with
    | nil => exact fun best e he => .inr he
    | cons a l ih =>
      intro best e he
      rcases ih _ e he with hl | hbest
      · exact .inl (List.mem_cons_of_mem _ hl)
      · cases best with
        | none => exact .inl (List.mem_cons.mpr (.inl (Option.some.inj hbest).symm))
        | some b =>
          dsimp only at hbest
          split at hbest
          · exact .inr hbest
          · exact .inl (List.mem_cons.mpr (.inl (Option.some.inj hbest).symm))
  rcases hmem _ none entry hentry with hl | hnone
  · exact ⟨entry.2, OrdMap.get?_eq_some_iff.mpr hl⟩
  · cases hnone

theorem recorded_of_collectParamNames {fs : List NamedFunction} {func param : Nat} {name : String}
    (h : collectParamNames fs func param = some name) :
    Recorded (candidates fs) func param name := by
  obtain ⟨params, hparams, h⟩ := Option.bind_eq_some_iff.mp h
  obtain ⟨names, hnames, hbest⟩ := Option.bind_eq_some_iff.mp h
  obtain ⟨count, hcount⟩ := bestName_mem hbest
  exact ⟨params, names, count, hparams, hnames, hcount⟩

namespace NamedFunction

variable {f : NamedFunction} {op : SsaOp}

/-- The votes of arguments are the explicit arguments that have a name. -/
theorem mem_argVotes {func param : Nat} {name : String} :
    ⟨func, param, name⟩ ∈ f.argVotes op ↔ f.body.calledFunction op = some func ∧
      f.argName op param = some name ∧ isInferredName name = true := by
  simp only [argVotes, List.mem_filterMap, argVote_eq_some, argName, SsaOp.mem_placedVars_iff,
    Vote.mk.injEq, Option.bind_eq_some_iff]
  constructor
  · rintro ⟨x, ⟨hvar, -⟩, func', first, name', hfunc, hfirst, hle, hname, hinferred, rfl, rfl, rfl⟩
    refine ⟨hfunc, ⟨first, hfirst, x.var, ⟨.var x.var, ?_, rfl⟩, hname⟩, hinferred⟩
    rw [Nat.add_sub_cancel' hle]
    exact hvar
  · rintro ⟨hfunc, ⟨first, hfirst, v, ⟨o, ho, hv⟩, hname⟩, hinferred⟩
    obtain rfl : o = .var v := by
      cases o <;> simp_all [SsaOperand.var?]
    exact ⟨⟨v, op.leading (first + param), first + param⟩, ⟨ho, rfl⟩, func, first, name, hfunc,
      hfirst, Nat.le_add_right _ _, hname, hinferred, rfl, by simp, rfl⟩

end NamedFunction

/-- Names are recorded for the arguments that they name, and all of them, exactly when every call
has its variables in place. -/
theorem namesAligned_iff (fs : List NamedFunction) :
    NamesAligned fs ↔ ∀ f ∈ fs, ∀ op ∈ f.body.ops, f.InPlace op := by
  constructor
  · exact fun h f hf op hop => (f.votes_eq_iff_inPlace op).mp (h.calls f hf op hop)
  · intro h
    have hcalls : ∀ f ∈ fs, ∀ op ∈ f.body.ops, f.votes op = f.argVotes op :=
      fun f hf op hop => (f.votes_eq_iff_inPlace op).mpr (h f hf op hop)
    have hrecorded : ∀ func param name, Recorded (candidates fs) func param name →
        PassedAs fs func param name := by
      intro func param name hrec
      obtain ⟨f, hf, op, hop, hvote⟩ := recorded_candidates.mp hrec
      rw [hcalls f hf op hop, NamedFunction.mem_argVotes] at hvote
      exact ⟨f, hf, op, hop, hvote.1, hvote.2.1⟩
    refine ⟨hcalls, hrecorded,
      fun func param name hname => hrecorded _ _ _ (recorded_of_collectParamNames hname), ?_⟩
    intro f hf op hop _ func param name hfunc hname hinferred
    rw [hcalls f hf op hop, NamedFunction.mem_argVotes]
    exact ⟨hfunc, hname, hinferred⟩

/-- `f(user)` with a direct call: `this` and the argument are the variables of the call. -/
def directCall : NamedFunction where
  body := ⟨[{
    id := 0
    phis := []
    ops := [{
      name := "CallDirect"
      dst := some ⟨0, 0⟩
      operands := [.dstPlaceholder, .const 2, .const 7, .var ⟨3, 0⟩, .var ⟨2, 0⟩]
      original := ⟨0, 5, "CallDirect", [.reg 0, .uint 2, .uint 7]⟩ }]
    successors := []
    predecessors := [] }]⟩
  varNames v := if v = ⟨2, 0⟩ then some "user" else none

theorem directCall_not_namesAligned : ¬ ∀ fs : List NamedFunction, NamesAligned fs := by
  intro h
  have hname : collectParamNames [directCall] 7 1 = some "user" := by decide +kernel
  obtain ⟨f, hf, op, hop, -, harg⟩ := (h [directCall]).returned 7 1 "user" hname
  obtain rfl := List.mem_singleton.mp hf
  obtain rfl := List.mem_singleton.mp hop
  revert harg
  decide +kernel

end Hermes.Decompile
