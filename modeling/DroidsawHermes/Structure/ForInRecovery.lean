-- SUMMARY: Recovery of for-in loops, and the clusters of statements for which it loses none.
import DroidsawHermes.Decompile.Passes
import DroidsawHermes.Structure.Stmt

/-!
# For-in recovery

`recover_for_in` of `decompile/sugar.rs`. Four statements next to each other, the list of
names, its guard, the next name and a loop, become a for-in loop.
-/

namespace Hermes.Structure

open Decompile

/-! ## The pass -/

/-- The variable that stands for a missing one. -/
def missingVar : VarId := ⟨2 ^ 32 - 1, 2 ^ 32 - 1⟩

def testsUndefined : Condition → Bool
  | .isUndefined _ | .notUndefined _ => true
  | _ => false

/-- What the matcher looks at, for an assignment, an `if`, an assignment and a loop. -/
def matchesForIn (names : SsaOp) (guard : Condition) (next : SsaOp) : Bool :=
  names.name == "GetPNameList" && testsUndefined guard && next.name == "GetNextPName"

def forInKey (next : SsaOp) : VarId := next.dst.getD missingVar

def forInObj (names : SsaOp) : VarId :=
  match names.operands[1]? with
  | some (SsaOperand.var v) => v
  | _ => missingVar

mutual

/-- Only branches and loops are searched for more. -/
def recoverForInStmt (depth : Nat) : Stmt → Stmt
  | .ifElse cond thenBody elseBody =>
    .ifElse cond (recoverForInInner (depth + 1) thenBody) (recoverForInInner (depth + 1) elseBody)
  | .while cond body => .while cond (recoverForInInner (depth + 1) body)
  | other => other

/-- Below the depth limit the statements stay as they are. -/
def recoverForInInner (depth : Nat) : List Stmt → List Stmt
  | [] => []
  | .assign dst names b :: .ifElse guard thenBody elseBody :: .assign dst' next b' ::
      .while cond body :: rest =>
    if depth > 500 then
      .assign dst names b :: .ifElse guard thenBody elseBody :: .assign dst' next b' ::
        .while cond body :: rest
    else if matchesForIn names guard next then
      .forIn (forInKey next) (forInObj names) (recoverForInInner (depth + 1) body) ::
        (recoverForInInner (depth + 1) thenBody ++ recoverForInInner depth rest)
    else
      .assign dst names b :: recoverForInInner depth
        (.ifElse guard thenBody elseBody :: .assign dst' next b' :: .while cond body :: rest)
  | stmt :: rest =>
    if depth > 500 then stmt :: rest
    else recoverForInStmt depth stmt :: recoverForInInner depth rest

end

def recoverForIn (stmts : List Stmt) : List Stmt := recoverForInInner 0 stmts

/-! ## What may be replaced -/

/-- The conditions of a cluster belong to its list and to its key. -/
structure ForInCluster (names : SsaOp) (guard : Condition) (next : SsaOp) (cond : Option Condition)
    (key obj : VarId) : Prop where
  listName : names.name = "GetPNameList"
  nextName : next.name = "GetNextPName"
  list : ∃ list, names.dst = some list ∧ next.operands[1]? = some (SsaOperand.var list) ∧
    (guard = .isUndefined list ∨ guard = .notUndefined list)
  object : names.operands[1]? = some (SsaOperand.var obj)
  nextKey : next.dst = some key
  loops : cond = some (.notUndefined key)

/-- The statements in which clusters are searched. -/
def Stmt.isSearched : Stmt → Bool
  | .ifElse _ _ _ | .while _ _ => true
  | _ => false

mutual

/-- The bodies of a branch or a loop may hold clusters. -/
inductive ForInStmt : Nat → Stmt → Stmt → Prop where
  | same {depth : Nat} {stmt : Stmt} (h : stmt.isSearched = false) : ForInStmt depth stmt stmt
  | ifElse {depth : Nat} {cond : Condition} {thenBody elseBody thenBody' elseBody' : List Stmt}
    (hthen : ForInList (depth + 1) thenBody thenBody')
    (helse : ForInList (depth + 1) elseBody elseBody') :
    ForInStmt depth (.ifElse cond thenBody elseBody) (.ifElse cond thenBody' elseBody')
  | while {depth : Nat} {cond : Option Condition} {body body' : List Stmt}
    (hbody : ForInList (depth + 1) body body') :
    ForInStmt depth (.while cond body) (.while cond body')

/-- The second list has the statements of the first one, in its order. Where a loop stands for
a cluster, it has the cluster's body, and both branches of the guard follow. Clusters deeper
than the limit stay. -/
inductive ForInList : Nat → List Stmt → List Stmt → Prop where
  | nil (depth : Nat) : ForInList depth [] []
  | cons {depth : Nat} {stmt stmt' : Stmt} {rest rest' : List Stmt} (hstmt : ForInStmt depth stmt stmt')
    (hrest : ForInList depth rest rest') : ForInList depth (stmt :: rest) (stmt' :: rest')
  | cluster {depth : Nat} {dst dst' : String} {names next : SsaOp} {b b' : Option BlockId}
    {guard : Condition} {cond : Option Condition} {key obj : VarId}
    {thenBody elseBody body rest thenBody' elseBody' body' rest' : List Stmt} (hdepth : depth ≤ 500)
    (hcluster : ForInCluster names guard next cond key obj)
    (hbody : ForInList (depth + 1) body body') (hthen : ForInList (depth + 1) thenBody thenBody')
    (helse : ForInList (depth + 1) elseBody elseBody') (hrest : ForInList depth rest rest') :
    ForInList depth
      (.assign dst names b :: .ifElse guard thenBody elseBody :: .assign dst' next b' ::
        .while cond body :: rest)
      (.forIn key obj body' :: (thenBody' ++ elseBody' ++ rest'))

end

/-- No statement is lost but those of clusters. -/
def LosesNoStatement (stmts : List Stmt) : Prop := ForInList 0 stmts (recoverForIn stmts)

/-! ## Proper matches -/

/-- A match is a cluster, and its guard has no else branch. -/
def properForIn (names : SsaOp) (guard : Condition) (elseBody : List Stmt) (next : SsaOp)
    (cond : Option Condition) : Bool :=
  names.dst.any (fun list => next.operands[1]? == some (SsaOperand.var list) &&
      (guard == .isUndefined list || guard == .notUndefined list)) &&
    ((names.operands[1]?.bind SsaOperand.var?).isSome && elseBody.isEmpty &&
      next.dst.any fun key => cond == some (.notUndefined key))

mutual

def properForInStmt (depth : Nat) : Stmt → Bool
  | .ifElse _ thenBody elseBody =>
    properForInList (depth + 1) thenBody && properForInList (depth + 1) elseBody
  | .while _ body => properForInList (depth + 1) body
  | _ => true

/-- Every match of the pass is proper. -/
def properForInList (depth : Nat) : List Stmt → Bool
  | [] => true
  | .assign _ names _ :: .ifElse guard thenBody elseBody :: .assign dst' next b' ::
      .while cond body :: rest =>
    if depth > 500 then true
    else if matchesForIn names guard next then
      properForIn names guard elseBody next cond && properForInList (depth + 1) body &&
        properForInList (depth + 1) thenBody && properForInList depth rest
    else
      properForInList depth
        (.ifElse guard thenBody elseBody :: .assign dst' next b' :: .while cond body :: rest)
  | stmt :: rest =>
    if depth > 500 then true else properForInStmt depth stmt && properForInList depth rest

end

/-! ## Steps -/

/-- Four statements that the matcher takes. -/
structure ForInMatch (stmts : List Stmt) (names next : SsaOp) (guard : Condition)
    (thenBody elseBody : List Stmt) (cond : Option Condition) (body rest : List Stmt) : Prop where
  shape : ∃ dst b dst' b', stmts = .assign dst names b :: .ifElse guard thenBody elseBody ::
    .assign dst' next b' :: .while cond body :: rest
  takes : matchesForIn names guard next = true

variable {depth : Nat}

theorem recoverForInInner_deep (h : depth > 500) (stmts : List Stmt) :
    recoverForInInner depth stmts = stmts := by
  rw [recoverForInInner.eq_def]
  split
  · rfl
  · rw [if_pos h]
  · rw [if_pos h]

theorem properForInList_deep (h : depth > 500) (stmts : List Stmt) :
    properForInList depth stmts = true := by
  rw [properForInList.eq_def]
  split
  · rfl
  · rw [if_pos h]
  · rw [if_pos h]

/-- The pass takes a match or keeps the statement. -/
theorem recoverForInInner_cons (h : depth ≤ 500) (stmt : Stmt) (rest : List Stmt) :
    (∃ names next guard thenBody elseBody cond body left,
      ForInMatch (stmt :: rest) names next guard thenBody elseBody cond body left) ∨
    (recoverForInInner depth (stmt :: rest) =
        recoverForInStmt depth stmt :: recoverForInInner depth rest ∧
      properForInList depth (stmt :: rest) =
        (properForInStmt depth stmt && properForInList depth rest)) := by
  have hdeep : ¬ depth > 500 := Nat.not_lt.mpr h
  by_cases hshape : ∃ dst names b guard thenBody elseBody dst' next b' cond body left,
      stmt :: rest = .assign dst names b :: .ifElse guard thenBody elseBody ::
        .assign dst' next b' :: .while cond body :: left
  · obtain ⟨dst, names, b, guard, thenBody, elseBody, dst', next, b', cond, body, left, heq⟩ := hshape
    cases hmatch : matchesForIn names guard next with
    | true =>
      exact Or.inl ⟨names, next, guard, thenBody, elseBody, cond, body, left, ⟨dst, b, dst', b', heq⟩,
        hmatch⟩
    | false =>
      cases heq
      right
      rw [recoverForInInner, properForInList, if_neg hdeep, if_neg hdeep, hmatch]
      exact ⟨rfl, rfl⟩
  · right
    have hno : ∀ dst names b guard thenBody elseBody dst' next b' cond body left,
        stmt = Stmt.assign dst names b → rest = .ifElse guard thenBody elseBody ::
          .assign dst' next b' :: .while cond body :: left → False := by
      rintro dst names b guard thenBody elseBody dst' next b' cond body left rfl rfl
      exact hshape ⟨dst, names, b, guard, thenBody, elseBody, dst', next, b', cond, body, left, rfl⟩
    rw [recoverForInInner, properForInList, if_neg hdeep, if_neg hdeep]
    · exact ⟨rfl, rfl⟩
    all_goals exact hno

/-- A statement is kept that is no assignment in front of an `if`. -/
theorem recoverForInInner_keep (h : depth ≤ 500) {stmt : Stmt} {rest : List Stmt}
    (hno : ∀ dst op b cond thenBody elseBody left, stmt = .assign dst op b →
      rest ≠ .ifElse cond thenBody elseBody :: left) :
    recoverForInInner depth (stmt :: rest) =
      recoverForInStmt depth stmt :: recoverForInInner depth rest := by
  rcases recoverForInInner_cons h stmt rest with hmatch | ⟨hkeep, -⟩
  · obtain ⟨names, next, guard, thenBody, elseBody, cond, body, left, ⟨dst, b, dst', b', heq⟩, -⟩ :=
      hmatch
    obtain ⟨hstmt, hrest⟩ := List.cons.inj heq
    exact absurd hrest (hno _ _ _ _ _ _ _ hstmt)
  · exact hkeep

theorem recoverForInInner_match (h : depth ≤ 500) {stmts : List Stmt} {names next : SsaOp}
    {guard : Condition} {thenBody elseBody : List Stmt} {cond : Option Condition}
    {body rest : List Stmt}
    (hmatch : ForInMatch stmts names next guard thenBody elseBody cond body rest) :
    recoverForInInner depth stmts =
        .forIn (forInKey next) (forInObj names) (recoverForInInner (depth + 1) body) ::
          (recoverForInInner (depth + 1) thenBody ++ recoverForInInner depth rest) ∧
      properForInList depth stmts =
        (properForIn names guard elseBody next cond && properForInList (depth + 1) body &&
          properForInList (depth + 1) thenBody && properForInList depth rest) := by
  obtain ⟨⟨dst, b, dst', b', rfl⟩, htakes⟩ := hmatch
  have hdeep : ¬ depth > 500 := Nat.not_lt.mpr h
  rw [recoverForInInner, properForInList, if_neg hdeep, if_neg hdeep, htakes]
  exact ⟨rfl, rfl⟩

/-! ## Sizes -/

/-- How many statements there are, nested ones included. -/
def sizeOfStmts (stmts : List Stmt) : Nat := (allOf stmts).length

@[simp] theorem sizeOfStmts_nil : sizeOfStmts [] = 0 := rfl

theorem sizeOfStmts_cons (stmt : Stmt) (rest : List Stmt) :
    sizeOfStmts (stmt :: rest) = stmt.all.length + sizeOfStmts rest := by
  rw [sizeOfStmts, allOf, List.length_append]
  rfl

theorem sizeOfStmts_append (stmts stmts' : List Stmt) :
    sizeOfStmts (stmts ++ stmts') = sizeOfStmts stmts + sizeOfStmts stmts' := by
  induction stmts with
  | nil => simp
  | cons stmt stmts ih => rw [List.cons_append, sizeOfStmts_cons, sizeOfStmts_cons, ih, Nat.add_assoc]

theorem all_length_pos (stmt : Stmt) : 0 < stmt.all.length := by
  cases stmt <;> simp [Stmt.all]

theorem all_ifElse (cond : Condition) (thenBody elseBody : List Stmt) :
    (Stmt.ifElse cond thenBody elseBody).all.length =
      sizeOfStmts thenBody + sizeOfStmts elseBody + 1 := by
  rw [Stmt.all, List.length_cons, List.length_append]
  rfl

theorem all_while (cond : Option Condition) (body : List Stmt) :
    (Stmt.while cond body).all.length = sizeOfStmts body + 1 := by
  rw [Stmt.all, List.length_cons]
  rfl

theorem all_forIn (key obj : VarId) (body : List Stmt) :
    (Stmt.forIn key obj body).all.length = sizeOfStmts body + 1 := by
  rw [Stmt.all, List.length_cons]
  rfl

/-- Two lists that start with the same statements and have the same size there. -/
theorem append_inj_of_size {l l' r r' : List Stmt} (h : l ++ r = l' ++ r')
    (hsize : sizeOfStmts l = sizeOfStmts l') : l = l' ∧ r = r' := by
  induction l generalizing l' with
  | nil =>
    cases l' with
    | nil => exact ⟨rfl, h⟩
    | cons stmt l' =>
      rw [sizeOfStmts_cons] at hsize
      have hpos := all_length_pos stmt
      rw [sizeOfStmts_nil] at hsize
      omega
  | cons stmt l ih =>
    cases l' with
    | nil =>
      rw [sizeOfStmts_cons] at hsize
      have hpos := all_length_pos stmt
      rw [sizeOfStmts_nil] at hsize
      omega
    | cons stmt' l' =>
      rw [List.cons_append, List.cons_append] at h
      obtain ⟨rfl, htail⟩ := List.cons.inj h
      rw [sizeOfStmts_cons, sizeOfStmts_cons] at hsize
      obtain ⟨rfl, hr⟩ := ih htail (by omega)
      exact ⟨rfl, hr⟩

theorem recoverForInStmt_deep (h : depth ≥ 500) (stmt : Stmt) :
    recoverForInStmt depth stmt = stmt := by
  cases stmt with
  | ifElse cond thenBody elseBody =>
    rw [recoverForInStmt, recoverForInInner_deep (by omega), recoverForInInner_deep (by omega)]
  | «while» cond body => rw [recoverForInStmt, recoverForInInner_deep (by omega)]
  | _ => rfl

theorem recoverForInStmt_of_not_isSearched {stmt : Stmt} (h : stmt.isSearched = false) :
    recoverForInStmt depth stmt = stmt := by
  cases stmt <;> first | rfl | cases h

/-- A match of the pass is no larger than its statements one by one. -/
theorem size_recover_cons (depth : Nat) (stmt : Stmt) (rest : List Stmt) :
    sizeOfStmts (recoverForInInner depth (stmt :: rest)) ≤
      (recoverForInStmt depth stmt).all.length + sizeOfStmts (recoverForInInner depth rest) := by
  by_cases hdeep : depth > 500
  · rw [recoverForInInner_deep hdeep, recoverForInInner_deep hdeep,
      recoverForInStmt_deep (by omega), sizeOfStmts_cons]
  · have hle : depth ≤ 500 := Nat.not_lt.mp hdeep
    rcases recoverForInInner_cons hle stmt rest with hmatch | ⟨hkeep, -⟩
    · obtain ⟨names, next, guard, thenBody, elseBody, cond, body, left, hmatch⟩ := hmatch
      rw [(recoverForInInner_match hle hmatch).1]
      obtain ⟨⟨dst, b, dst', b', heq⟩, htakes⟩ := hmatch
      cases heq
      have hrest : recoverForInInner depth (.ifElse guard thenBody elseBody :: .assign dst' next b' ::
          .while cond body :: left) = recoverForInStmt depth (.ifElse guard thenBody elseBody) ::
            .assign dst' next b' :: recoverForInStmt depth (.while cond body) ::
              recoverForInInner depth left := by
        rw [recoverForInInner_keep hle (by simp), recoverForInInner_keep hle (by simp),
          recoverForInInner_keep hle (by simp)]
        rfl
      rw [hrest]
      simp only [sizeOfStmts_cons, sizeOfStmts_append, recoverForInStmt, all_ifElse, all_while,
        all_forIn]
      have hpos := all_length_pos (.assign dst names b)
      omega
    · rw [hkeep, sizeOfStmts_cons]

/-! ## When no statement is lost -/

theorem ForInCluster.takes {names next : SsaOp} {guard : Condition} {cond : Option Condition}
    {key obj : VarId} (h : ForInCluster names guard next cond key obj) :
    matchesForIn names guard next = true ∧ forInKey next = key ∧ forInObj names = obj := by
  obtain ⟨list, -, -, hguard⟩ := h.list
  have htests : testsUndefined guard = true := by rcases hguard with rfl | rfl <;> rfl
  refine ⟨by simp [matchesForIn, h.listName, h.nextName, htests], ?_, ?_⟩
  · rw [forInKey, h.nextKey, Option.getD_some]
  · rw [forInObj, h.object]

mutual

theorem size_le_stmt : ∀ {depth : Nat} {stmt stmt' : Stmt}, ForInStmt depth stmt stmt' →
    (recoverForInStmt depth stmt).all.length ≤ stmt'.all.length
  | depth, stmt, _, .same h => by rw [recoverForInStmt_of_not_isSearched h]
  | _, _, _, .ifElse hthen helse => by
    have hleft := size_le_list hthen
    have hright := size_le_list helse
    rw [recoverForInStmt, all_ifElse, all_ifElse]
    omega
  | _, _, _, .while hbody => by
    have hle := size_le_list hbody
    rw [recoverForInStmt, all_while, all_while]
    omega

/-- The pass leaves no more than any list without clusters. -/
theorem size_le_list : ∀ {depth : Nat} {stmts stmts' : List Stmt}, ForInList depth stmts stmts' →
    sizeOfStmts (recoverForInInner depth stmts) ≤ sizeOfStmts stmts'
  | _, _, _, .nil _ => by
    rw [recoverForInInner]
  | depth, stmt :: rest, _, .cons hstmt hrest => by
    have hle := size_recover_cons depth stmt rest
    have hleft := size_le_stmt hstmt
    have hright := size_le_list hrest
    rw [sizeOfStmts_cons]
    omega
  | depth, _, _, .cluster hdepth hcluster hbody hthen helse hrest => by
    have hbody := size_le_list hbody
    have hthen := size_le_list hthen
    have hrest := size_le_list hrest
    rw [(recoverForInInner_match hdepth ⟨⟨_, _, _, _, rfl⟩, hcluster.takes.1⟩).1]
    simp only [sizeOfStmts_cons, sizeOfStmts_append, all_forIn]
    omega

end

theorem properForIn_of_cluster {names next : SsaOp} {guard : Condition} {cond : Option Condition}
    {key obj : VarId} (h : ForInCluster names guard next cond key obj) :
    properForIn names guard [] next cond = true := by
  obtain ⟨list, hdst, hreads, hguard⟩ := h.list
  rcases hguard with rfl | rfl <;>
    simp [properForIn, hdst, hreads, h.object, h.nextKey, h.loops, SsaOperand.var?]

/-- The pass at a cluster. -/
theorem recoverForInInner_cluster {dst dst' : String} {names next : SsaOp} {b b' : Option BlockId}
    {guard : Condition} {cond : Option Condition} {key obj : VarId}
    {thenBody elseBody body rest : List Stmt} (hdepth : depth ≤ 500)
    (h : ForInCluster names guard next cond key obj) :
    recoverForInInner depth (.assign dst names b :: .ifElse guard thenBody elseBody ::
        .assign dst' next b' :: .while cond body :: rest) =
      .forIn key obj (recoverForInInner (depth + 1) body) ::
        (recoverForInInner (depth + 1) thenBody ++ recoverForInInner depth rest) ∧
    properForInList depth (.assign dst names b :: .ifElse guard thenBody elseBody ::
        .assign dst' next b' :: .while cond body :: rest) =
      (properForIn names guard elseBody next cond && properForInList (depth + 1) body &&
        properForInList (depth + 1) thenBody && properForInList depth rest) := by
  obtain ⟨htakes, hkey, hobj⟩ := h.takes
  constructor
  · rw [(recoverForInInner_match hdepth ⟨⟨dst, b, dst', b', rfl⟩, htakes⟩).1, hkey, hobj]
  · rw [(recoverForInInner_match hdepth ⟨⟨dst, b, dst', b', rfl⟩, htakes⟩).2]

/-- Both branches of the guard and what follows it, against what the pass leaves of them. -/
theorem aligned_of_cluster {thenBody elseBody rest thenBody' elseBody' rest' : List Stmt}
    (hthen : sizeOfStmts thenBody ≤ sizeOfStmts thenBody')
    (hrest : sizeOfStmts rest ≤ sizeOfStmts rest')
    (helse : ForInList depth elseBody elseBody')
    (heq : thenBody' ++ elseBody' ++ rest' = thenBody ++ rest) :
    thenBody' = thenBody ∧ elseBody = [] ∧ rest' = rest := by
  have hsize := congrArg sizeOfStmts heq
  simp only [sizeOfStmts_append] at hsize
  have hnil : elseBody' = [] := by
    cases elseBody' with
    | nil => rfl
    | cons stmt elseBody' =>
      rw [sizeOfStmts_cons] at hsize
      have hpos := all_length_pos stmt
      omega
  subst hnil
  rw [List.append_nil] at heq
  rw [sizeOfStmts_nil] at hsize
  obtain ⟨hthen', hrest'⟩ := append_inj_of_size heq (by omega)
  cases helse
  exact ⟨hthen', rfl, hrest'⟩

mutual

theorem proper_of_forInStmt : ∀ {depth : Nat} {stmt stmt' : Stmt}, ForInStmt depth stmt stmt' →
    stmt' = recoverForInStmt depth stmt → properForInStmt depth stmt = true
  | depth, stmt, _, .same h, _ => by cases stmt <;> first | rfl | cases h
  | _, _, _, .ifElse hthen helse, heq => by
    rw [recoverForInStmt, Stmt.ifElse.injEq] at heq
    rw [properForInStmt, proper_of_forInList hthen heq.2.1, proper_of_forInList helse heq.2.2]
    rfl
  | _, _, _, .while hbody, heq => by
    rw [recoverForInStmt, Stmt.while.injEq] at heq
    rw [properForInStmt, proper_of_forInList hbody heq.2]

/-- Where the pass loses no statement, its matches are proper. -/
theorem proper_of_forInList : ∀ {depth : Nat} {stmts stmts' : List Stmt},
    ForInList depth stmts stmts' → stmts' = recoverForInInner depth stmts →
      properForInList depth stmts = true
  | _, _, _, .nil _, _ => by rw [properForInList]
  | depth, stmt :: rest, _, .cons hstmt hrest, heq => by
    by_cases hdeep : depth > 500
    · exact properForInList_deep hdeep _
    · have hle : depth ≤ 500 := Nat.not_lt.mp hdeep
      rcases recoverForInInner_cons hle stmt rest with hmatch | ⟨hkeep, hproper⟩
      · obtain ⟨names, next, guard, thenBody, elseBody, cond, body, left, hmatch⟩ := hmatch
        rw [(recoverForInInner_match hle hmatch).1] at heq
        obtain ⟨⟨dst, b, dst', b', hshape⟩, -⟩ := hmatch
        obtain ⟨rfl, -⟩ := List.cons.inj hshape
        obtain ⟨rfl, -⟩ := List.cons.inj heq
        cases hstmt
      · rw [hkeep] at heq
        obtain ⟨hhead, htail⟩ := List.cons.inj heq
        rw [hproper, proper_of_forInStmt hstmt hhead, proper_of_forInList hrest htail]
        rfl
  | depth, _, _, .cluster hdepth hcluster hbody hthen helse hrest, heq => by
    rw [(recoverForInInner_cluster hdepth hcluster).1, List.cons.injEq, Stmt.forIn.injEq] at heq
    obtain ⟨⟨-, -, heqBody⟩, heqRest⟩ := heq
    obtain ⟨heqThen, hnil, heqRest⟩ :=
      aligned_of_cluster (size_le_list hthen) (size_le_list hrest) helse heqRest
    rw [(recoverForInInner_cluster hdepth hcluster).2, hnil, properForIn_of_cluster hcluster,
      proper_of_forInList hbody heqBody, proper_of_forInList hthen heqThen,
      proper_of_forInList hrest heqRest]
    rfl

end

theorem cluster_of_properForIn {names next : SsaOp} {guard : Condition} {elseBody : List Stmt}
    {cond : Option Condition} (htakes : matchesForIn names guard next = true)
    (h : properForIn names guard elseBody next cond = true) :
    ForInCluster names guard next cond (forInKey next) (forInObj names) ∧ elseBody = [] := by
  simp only [properForIn, Bool.and_eq_true, Option.any_eq_true, beq_iff_eq, Bool.or_eq_true,
    List.isEmpty_iff] at h
  obtain ⟨⟨list, hdst, hreads, hguard⟩, ⟨hobject, helse⟩, key, hkey, hloops⟩ := h
  simp only [matchesForIn, Bool.and_eq_true, beq_iff_eq] at htakes
  refine ⟨⟨htakes.1.1, htakes.2, ⟨list, hdst, hreads, hguard⟩, ?_, ?_, ?_⟩, helse⟩
  · rw [forInObj]
    cases hop : names.operands[1]? with
    | none => simp [hop] at hobject
    | some o => cases o <;> first | rfl | (simp [hop, SsaOperand.var?] at hobject)
  · rw [forInKey, hkey, Option.getD_some]
  · rw [forInKey, hkey, Option.getD_some, hloops]

mutual

theorem forInStmt_refl (stmt : Stmt) (depth : Nat) : ForInStmt depth stmt stmt := by
  cases stmt with
  | ifElse cond thenBody elseBody =>
    exact .ifElse (forInList_refl thenBody (depth + 1)) (forInList_refl elseBody (depth + 1))
  | «while» cond body => exact .while (forInList_refl body (depth + 1))
  | _ => exact .same rfl

theorem forInList_refl (stmts : List Stmt) (depth : Nat) : ForInList depth stmts stmts := by
  cases stmts with
  | nil => exact .nil depth
  | cons stmt rest => exact .cons (forInStmt_refl stmt depth) (forInList_refl rest depth)

end

mutual

theorem forInStmt_of_proper (stmt : Stmt) (depth : Nat) (h : properForInStmt depth stmt = true) :
    ForInStmt depth stmt (recoverForInStmt depth stmt) := by
  cases stmt with
  | ifElse cond thenBody elseBody =>
    rw [properForInStmt, Bool.and_eq_true] at h
    exact .ifElse (forInList_of_proper thenBody (depth + 1) h.1)
      (forInList_of_proper elseBody (depth + 1) h.2)
  | «while» cond body =>
    rw [properForInStmt] at h
    exact .while (forInList_of_proper body (depth + 1) h)
  | _ => exact .same rfl
termination_by sizeOf stmt

/-- With proper matches the pass loses no statement. -/
theorem forInList_of_proper (stmts : List Stmt) (depth : Nat)
    (h : properForInList depth stmts = true) :
    ForInList depth stmts (recoverForInInner depth stmts) := by
  by_cases hdeep : depth > 500
  · rw [recoverForInInner_deep hdeep]
    exact forInList_refl stmts depth
  have hle : depth ≤ 500 := Nat.not_lt.mp hdeep
  match stmts with
  | [] =>
    rw [recoverForInInner]
    exact .nil depth
  | stmt :: rest =>
    rcases recoverForInInner_cons hle stmt rest with hmatch | ⟨hkeep, hproper⟩
    · obtain ⟨names, next, guard, thenBody, elseBody, cond, body, left, hmatch⟩ := hmatch
      rw [(recoverForInInner_match hle hmatch).2] at h
      rw [(recoverForInInner_match hle hmatch).1]
      simp only [Bool.and_eq_true] at h
      obtain ⟨⟨⟨hproper, hbody⟩, hthen⟩, hleft⟩ := h
      obtain ⟨⟨dst, b, dst', b', heq⟩, htakes⟩ := hmatch
      obtain ⟨hcluster, rfl⟩ := cluster_of_properForIn htakes hproper
      obtain ⟨rfl, rfl⟩ := List.cons.inj heq
      -- The else branch is empty: nothing stands between the then branch and the rest.
      rw [← List.append_nil (recoverForInInner (depth + 1) thenBody)]
      exact .cluster hle hcluster (forInList_of_proper body (depth + 1) hbody)
        (forInList_of_proper thenBody (depth + 1) hthen) (.nil (depth + 1))
        (forInList_of_proper left depth hleft)
    · rw [hproper, Bool.and_eq_true] at h
      rw [hkeep]
      exact .cons (forInStmt_of_proper stmt depth h.1) (forInList_of_proper rest depth h.2)
termination_by sizeOf stmts

end

/-- No statement is lost exactly when every match is a cluster whose guard has no else branch. -/
theorem losesNoStatement_iff (stmts : List Stmt) :
    LosesNoStatement stmts ↔ properForInList 0 stmts = true :=
  ⟨fun h => proper_of_forInList h rfl, forInList_of_proper stmts 0⟩

/-- `r3_0 = GetPNameList r1_0`. -/
def namesOfObject : SsaOp :=
  { name := "GetPNameList"
    dst := some ⟨3, 0⟩
    operands := [.dstPlaceholder, .var ⟨1, 0⟩, .var ⟨5, 0⟩, .var ⟨6, 0⟩]
    original := ⟨0, 5, "GetPNameList", [.reg 3, .reg 1, .reg 5, .reg 6]⟩ }

/-- `r4_0 = GetNextPName r3_0`. -/
def nextName : SsaOp :=
  { name := "GetNextPName"
    dst := some ⟨4, 0⟩
    operands := [.dstPlaceholder, .var ⟨3, 0⟩, .var ⟨1, 0⟩, .var ⟨5, 0⟩, .var ⟨6, 0⟩]
    original := ⟨9, 6, "GetNextPName", [.reg 4, .reg 3, .reg 1, .reg 5, .reg 6]⟩ }

/-- A loop over the names whose guard has work in both branches. -/
def guardedLoop : List Stmt :=
  [.assign "r3_0" namesOfObject none,
    .ifElse (.isUndefined ⟨3, 0⟩) [.phiAssign "r7_0" "r1_0"] [.phiAssign "r8_0" "r3_0"],
    .assign "r4_0" nextName none,
    .while (some (.notUndefined ⟨4, 0⟩)) [.phiAssign "r9_0" "r4_0"]]

/-- The copy of the else branch is gone. -/
theorem guardedLoop_loses_statement :
    recoverForIn guardedLoop =
      [.forIn ⟨4, 0⟩ ⟨1, 0⟩ [.phiAssign "r9_0" "r4_0"], .phiAssign "r7_0" "r1_0"] ∧
    ¬ LosesNoStatement guardedLoop := by
  refine ⟨rfl, fun h => ?_⟩
  have hproper := proper_of_forInList h rfl
  revert hproper
  decide

end Hermes.Structure
