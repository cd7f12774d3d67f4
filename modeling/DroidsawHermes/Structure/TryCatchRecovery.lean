-- SUMMARY: Recovery of try regions, and exactly when it keeps every statement once.
import DroidsawHermes.Lib.OrdMap
import DroidsawHermes.Lib.Scan
import DroidsawHermes.Structure.Stmt

/-!
# Try-catch recovery

`recover_try_catch` of `decompile/sugar.rs` goes through a list three times: it collects the
bodies of catches that stand in front of a region of theirs, marks the statements of such
bodies, and emits the rest, with a body for each region. The statements are taken with their
indices.
-/

namespace Hermes.Structure

open Decompile Scan

/-! ## Statements -/

/-- A statement and its index. -/
abbrev IndexedStmt := Stmt × Nat

/-- The variable of a catch. -/
def Stmt.catchVar? : Stmt → Option String
  | .assign dst o _ => if o.name = "Catch" then some dst else none
  | _ => none

def Stmt.isCatch (stmt : Stmt) : Bool := stmt.catchVar?.isSome

def Stmt.block? : Stmt → Option BlockId
  | .assign _ _ blockId => blockId
  | _ => none

def stmtHandler (handlers : OrdMap BlockId BlockId) (excluded : OrdSet BlockId) (stmt : Stmt) :
    Option BlockId :=
  (stmt.block?.bind handlers.get?).filter fun target => !excluded.keys.contains target

section Passes

variable (handler : Stmt → Option BlockId)

/-- The body of a catch goes on at a statement that has its handler or none. -/
def inCatchBody (block : BlockId) (p : IndexedStmt) : Bool :=
  !(handler p.1).any (· != block) && !p.1.isCatch

/-! ## Collected bodies -/

structure CatchBlock where
  block : BlockId
  var : String
  place : Nat
  body : List IndexedStmt
  /-- A later statement has the block as its handler. -/
  triedLater : Bool

/-- The catches with a block. There are none inside the body of another one. -/
def catchBlocks : List IndexedStmt → List CatchBlock
  | [] => []
  | p :: rest =>
    match p.1.catchVar?, p.1.block? with
    | some var, some block =>
      ⟨block, var, p.2, rest.takeWhile (inCatchBody handler block),
        rest.any fun q => handler q.1 = some block⟩ :: catchBlocks rest
    | _, _ => catchBlocks rest

/-- `catch_map`, in the order of insertion. -/
def collectedBlocks (targets : List BlockId) (stmts : List IndexedStmt) : List CatchBlock :=
  (catchBlocks handler stmts).filter fun c => targets.contains c.block && c.triedLater

/-- The last one inserted for a block. -/
def collectedFor (collected : List CatchBlock) (block : BlockId) : Option CatchBlock :=
  (collected.filter fun c => c.block = block).getLast?

def markedBlocks (targets : List BlockId) (stmts : List IndexedStmt) : List CatchBlock :=
  (catchBlocks handler stmts).filter fun c =>
    (collectedBlocks handler targets stmts).any fun d => d.block = c.block

/-- `catch_stmt_indices`. -/
def markedIndices (targets : List BlockId) (stmts : List IndexedStmt) : List Nat :=
  (markedBlocks handler targets stmts).flatMap fun c => c.place :: c.body.map Prod.snd

/-! ## Regions -/

/-- Where the catch of a region comes from. -/
inductive CatchSource where
  | collected (c : CatchBlock)
  | following (catchStmt : IndexedStmt) (var : String) (body : List IndexedStmt)
  | missing

namespace CatchSource

def var : CatchSource → String
  | .collected c => c.var
  | .following _ var _ => var
  | .missing => "err"

def body : CatchSource → List IndexedStmt
  | .collected c => c.body
  | .following _ _ body => body
  | .missing => []

/-- What the pass goes over for it, behind the region. -/
def taken : CatchSource → List IndexedStmt
  | .following catchStmt _ body => catchStmt :: body
  | _ => []

end CatchSource

def followingCatch (target : BlockId) : List IndexedStmt → CatchSource
  | [] => .missing
  | p :: rest =>
    match p.1.catchVar? with
    | some var => .following p var (rest.takeWhile (inCatchBody handler target))
    | none => .missing

/-- What the third pass does at a statement. -/
inductive TryStep where
  | skip (p : IndexedStmt)
  | keep (p : IndexedStmt)
  | region (target : BlockId) (tryBody : List IndexedStmt) (source : CatchSource)

/-- The bodies still to be used, what is done, and what is consumed of the rest. -/
def tryStep (marked : List Nat) (collected : List CatchBlock) (p : IndexedStmt) (rest : List IndexedStmt) :
    List CatchBlock × List TryStep × Nat :=
  if marked.contains p.2 then (collected, [.skip p], 0)
  else
    match handler p.1 with
    | none => (collected, [.keep p], 0)
    | some target =>
      let region := rest.takeWhile fun q => handler q.1 = some target
      match collectedFor collected target with
      | some c => (collected.filter fun d => d.block ≠ target,
          [.region target (p :: region) (.collected c)], region.length)
      | none =>
        let source := followingCatch handler target (rest.drop region.length)
        (collected, [.region target (p :: region) source], region.length + source.taken.length)

def trySteps (targets : List BlockId) (stmts : List IndexedStmt) : List TryStep :=
  scanWith (tryStep handler (markedIndices handler targets stmts))
    (collectedBlocks handler targets stmts) 0 stmts

end Passes

/-- The statements that a step emits, where `recover` is the pass on a body of the region. -/
def TryStep.emit (recover : BlockId → List Stmt → Option (List Stmt)) :
    TryStep → Option (List Stmt)
  | .skip _ => some []
  | .keep p => some [p.1]
  | .region target tryBody source => do
    let tryBody ← recover target (tryBody.map Prod.fst)
    let catchBody ← recover target (source.body.map Prod.fst)
    return [.tryCatch tryBody source.var catchBody]

/-! ## The pass -/

/-- A part of the result: a statement that stays, or a try with its catch. -/
inductive TryPiece where
  | keep (p : IndexedStmt)
  | tryCatch (tryBody : List IndexedStmt) (var : String) (catchBody : List IndexedStmt)

namespace TryPiece

def toStmt : TryPiece → Stmt
  | .keep p => p.1
  | .tryCatch tryBody var catchBody =>
    .tryCatch (tryBody.map Prod.fst) var (catchBody.map Prod.fst)

def placed : TryPiece → List IndexedStmt
  | .keep p => [p]
  | .tryCatch tryBody _ catchBody => tryBody ++ catchBody

def kept? : TryPiece → Option IndexedStmt
  | .keep p => some p
  | .tryCatch _ _ _ => none

end TryPiece

def TryStep.piece? : TryStep → Option TryPiece
  | .skip _ => none
  | .keep p => some (.keep p)
  | .region _ tryBody source => some (.tryCatch tryBody source.var source.body)

def notCatch (p : IndexedStmt) : Bool := !p.1.isCatch

/-- Without handlers the list is cut at its catches. -/
def splitStep (p : IndexedStmt) (rest : List IndexedStmt) : List TryPiece × Nat :=
  let tryBody := (p :: rest).takeWhile notCatch
  match (p :: rest).drop tryBody.length with
  | [] => (tryBody.map .keep, rest.length)
  | catchStmt :: left =>
    let catchBody := left.takeWhile notCatch
    (if tryBody.isEmpty && catchBody.isEmpty then []
      else [.tryCatch tryBody (catchStmt.1.catchVar?.getD "err") catchBody],
      tryBody.length + catchBody.length)

section Recover

variable (handlers : OrdMap BlockId BlockId)

/-- `excluded` are the handlers of the regions around the list; the first argument bounds the
nesting. -/
def recoverTryCatchInner : Nat → OrdSet BlockId → List Stmt → Option (List Stmt)
  | 0, _, _ => none
  | n + 1, excluded, stmts =>
    if !stmts.any Stmt.isCatch then some stmts
    else if handlers.toList.isEmpty then
      some ((scan splitStep 0 stmts.zipIdx).map TryPiece.toStmt)
    else
      ((trySteps (stmtHandler handlers excluded) handlers.values stmts.zipIdx).mapM
        (TryStep.emit fun target body =>
          recoverTryCatchInner n (excluded.insert target) body)).map List.flatten

def recoverTryCatch (n : Nat) (stmts : List Stmt) : Option (List Stmt) :=
  recoverTryCatchInner handlers n OrdSet.empty stmts

/-- The steps of the third pass on a whole list. -/
def topSteps (stmts : List Stmt) : List TryStep :=
  trySteps (stmtHandler handlers OrdSet.empty) handlers.values stmts.zipIdx

/-- The parts of the result. -/
def tryPieces (stmts : List Stmt) : List TryPiece :=
  if !stmts.any Stmt.isCatch then stmts.zipIdx.map .keep
  else if handlers.toList.isEmpty then scan splitStep 0 stmts.zipIdx
  else (topSteps handlers stmts).filterMap TryStep.piece?

end Recover

/-! ## Conservation -/

/-- Every statement but the catches is in one place, and everywhere the order is kept. -/
structure ConservesStatements (stmts : List IndexedStmt) (pieces : List TryPiece) : Prop where
  once : ∀ p ∈ stmts, p.1.isCatch = false →
    ((pieces.flatMap TryPiece.placed).map Prod.snd).count p.2 = 1
  bodies : ∀ tryBody var catchBody, .tryCatch tryBody var catchBody ∈ pieces →
    tryBody.Sublist stmts ∧ catchBody.Sublist stmts
  topLevel : (pieces.filterMap TryPiece.kept?).Sublist stmts

/-- The pass ends, and conserves the statements. -/
structure RecoversTryCatch (handlers : OrdMap BlockId BlockId) (stmts : List Stmt) : Prop where
  ends : ∀ n, 2 ≤ n →
    recoverTryCatch handlers n stmts = some ((tryPieces handlers stmts).map TryPiece.toStmt)
  conserves : ConservesStatements stmts.zipIdx (tryPieces handlers stmts)

def TryStep.target? : TryStep → Option BlockId
  | .region target _ _ => some target
  | _ => none

/-- The three passes agree on a marked body: it is stepped over exactly if it was the last one
collected for its block and a region of the block begins somewhere. -/
def PassesAgree (handlers : OrdMap BlockId BlockId) (stmts : List Stmt) : Prop :=
  let handler := stmtHandler handlers OrdSet.empty
  ∀ c ∈ markedBlocks handler handlers.values stmts.zipIdx, ∀ p ∈ c.body,
    (.skip p ∈ topSteps handlers stmts ↔
      collectedFor (collectedBlocks handler handlers.values stmts.zipIdx) c.block = some c ∧
        c.block ∈ (topSteps handlers stmts).filterMap TryStep.target?)

/-! ## What the steps go over -/

def TryStep.covered : TryStep → List IndexedStmt
  | .skip p => [p]
  | .keep p => [p]
  | .region _ tryBody source => tryBody ++ source.taken

/-- The collected body that a step uses. -/
def TryStep.used : TryStep → List IndexedStmt
  | .region _ _ (.collected c) => c.body
  | _ => []

def TryStep.skipped : TryStep → List IndexedStmt
  | .skip p => [p]
  | _ => []

/-- The catch behind a region. -/
def TryStep.consumedCatch : TryStep → List IndexedStmt
  | .region _ _ (.following catchStmt _ _) => [catchStmt]
  | _ => []

section

variable (handler : Stmt → Option BlockId) {targets : List BlockId} {stmts rest : List IndexedStmt}
  {collected : List CatchBlock} {marked : List Nat} {p : IndexedStmt}

theorem followingCatch_taken (target : BlockId) (l : List IndexedStmt) :
    (followingCatch handler target l).taken ++
      l.drop (followingCatch handler target l).taken.length = l := by
  cases l with
  | nil => rfl
  | cons p rest =>
    cases hvar : p.1.catchVar? with
    | none => simp [followingCatch, hvar, CatchSource.taken]
    | some var =>
      simp [followingCatch, hvar, CatchSource.taken, takeWhile_append_drop]

/-- A step goes over what it consumes. -/
theorem tryStep_covered : p :: rest =
    (tryStep handler marked collected p rest).2.1.flatMap TryStep.covered ++
      rest.drop (tryStep handler marked collected p rest).2.2 := by
  unfold tryStep
  split
  · rfl
  · split
    · rfl
    · next target _ =>
      split
      · simp [TryStep.covered, CatchSource.taken, takeWhile_append_drop]
      · have hleft := followingCatch_taken handler target
          (rest.drop (rest.takeWhile fun q => decide (handler q.1 = some target)).length)
        rw [List.drop_drop] at hleft
        simp [TryStep.covered, hleft, takeWhile_append_drop]

theorem trySteps_covered (targets : List BlockId) (stmts : List IndexedStmt) :
    (trySteps handler targets stmts).flatMap TryStep.covered = stmts := by
  unfold trySteps
  generalize collectedBlocks handler targets stmts = collected
  generalize markedIndices handler targets stmts = marked
  induction collected, stmts using scanWith_induction (tryStep handler marked) with
  | nil collected => rfl
  | cons collected p rest ih =>
    rw [scanWith_cons, List.flatMap_append, ih, ← tryStep_covered]

/-! ## Bodies -/

/-- A catch is the first statement or one behind it. -/
theorem mem_catchBlocks_cons {c : CatchBlock} (h : c ∈ catchBlocks handler (p :: rest)) :
    (∃ var block, p.1.catchVar? = some var ∧ p.1.block? = some block ∧
      c = ⟨block, var, p.2, rest.takeWhile (inCatchBody handler block),
        rest.any fun q => handler q.1 = some block⟩) ∨
      c ∈ catchBlocks handler rest := by
  rw [catchBlocks] at h
  split at h
  · next var block hvar hblock =>
    exact (List.mem_cons.mp h).imp_left fun h => ⟨var, block, hvar, hblock, h⟩
  · exact Or.inr h

theorem catchBlocks_body {c : CatchBlock} (h : c ∈ catchBlocks handler stmts) :
    (∀ p ∈ c.body, inCatchBody handler c.block p = true) ∧ c.body.Sublist stmts := by
  induction stmts with
  | nil => cases h
  | cons p rest ih =>
    rcases mem_catchBlocks_cons handler h with ⟨var, block, -, -, rfl⟩ | h
    · exact ⟨fun q hq => List.mem_takeWhile_imp hq, (List.takeWhile_sublist _).cons p⟩
    · exact ⟨(ih h).1, (ih h).2.cons p⟩

theorem catchBlocks_place {c : CatchBlock} (h : c ∈ catchBlocks handler stmts) :
    ∃ p ∈ stmts, p.2 = c.place ∧ p.1.isCatch = true := by
  induction stmts with
  | nil => cases h
  | cons p rest ih =>
    rcases mem_catchBlocks_cons handler h with ⟨var, block, hvar, -, rfl⟩ | h
    · exact ⟨p, List.mem_cons_self, rfl, by rw [Stmt.isCatch, hvar]; rfl⟩
    · obtain ⟨q, hq, hplace⟩ := ih h
      exact ⟨q, List.mem_cons_of_mem p hq, hplace⟩

theorem triedLater_of_mem {c : CatchBlock} (h : c ∈ catchBlocks handler stmts)
    (htried : c.triedLater = true) : ∃ p ∈ stmts, handler p.1 = some c.block := by
  induction stmts with
  | nil => cases h
  | cons p rest ih =>
    rcases mem_catchBlocks_cons handler h with ⟨var, block, -, -, rfl⟩ | h
    · obtain ⟨q, hq, hhandler⟩ := List.any_eq_true.mp htried
      exact ⟨q, List.mem_cons_of_mem p hq, by simpa using hhandler⟩
    · obtain ⟨q, hq, hhandler⟩ := ih h
      exact ⟨q, List.mem_cons_of_mem p hq, hhandler⟩

theorem collectedFor_mem {c : CatchBlock} {block : BlockId}
    (h : collectedFor collected block = some c) : c ∈ collected ∧ c.block = block := by
  have hmem := List.mem_of_getLast? h
  simpa using hmem

theorem tryStep_collected {c : CatchBlock}
    (h : c ∈ (tryStep handler marked collected p rest).1) : c ∈ collected := by
  unfold tryStep at h
  split at h
  · exact h
  · split at h
    · exact h
    · split at h
      · exact (List.mem_filter.mp h).1
      · exact h

theorem followingCatch_body (target : BlockId) (l : List IndexedStmt) :
    (∀ p ∈ (followingCatch handler target l).body, inCatchBody handler target p = true) ∧
      (followingCatch handler target l).body.Sublist l := by
  cases l with
  | nil => simp [followingCatch, CatchSource.body]
  | cons p rest =>
    cases hvar : p.1.catchVar? with
    | none => simp [followingCatch, hvar, CatchSource.body]
    | some var =>
      simp only [followingCatch, hvar, CatchSource.body]
      exact ⟨fun q hq => List.mem_takeWhile_imp hq, (List.takeWhile_sublist _).cons p⟩

/-- The statements of a region have its handler, those of its catch no other one. -/
theorem region_of_mem {target : BlockId} {tryBody : List IndexedStmt} {source : CatchSource}
    (h : .region target tryBody source ∈ trySteps handler targets stmts) :
    (∀ p ∈ tryBody, handler p.1 = some target) ∧
      (∀ p ∈ source.body, inCatchBody handler target p = true) ∧
      tryBody.Sublist stmts ∧ source.body.Sublist stmts := by
  have hstart : ∀ c ∈ collectedBlocks handler targets stmts, c ∈ catchBlocks handler stmts :=
    fun c hc => (List.mem_filter.mp hc).1
  obtain ⟨collected, p, rest, hinv, hsuffix, hmem⟩ := exists_step_of_mem_scanWith _
    (fun collected => ∀ c ∈ collected, c ∈ catchBlocks handler stmts)
    (fun _ _ _ hinv c hc => hinv c (tryStep_collected handler hc)) hstart h
  unfold tryStep at hmem
  split at hmem
  · cases List.mem_singleton.mp hmem
  · split at hmem
    · cases List.mem_singleton.mp hmem
    · next target' hhandler =>
      have hregion : ∀ q ∈ p :: rest.takeWhile (fun q => decide (handler q.1 = some target')),
          handler q.1 = some target' := by
        intro q hq
        rcases List.mem_cons.mp hq with rfl | hq
        · exact hhandler
        · simpa using List.mem_takeWhile_imp hq
      have hsublist : (p :: rest.takeWhile fun q => decide (handler q.1 = some target')).Sublist stmts :=
        ((List.takeWhile_sublist _).cons_cons p).trans hsuffix.sublist
      split at hmem
      · next c hcollected =>
        cases List.mem_singleton.mp hmem
        obtain ⟨hc, rfl⟩ := collectedFor_mem hcollected
        obtain ⟨hbody, hbodySublist⟩ := catchBlocks_body handler (hinv c hc)
        exact ⟨hregion, hbody, hsublist, hbodySublist⟩
      · cases List.mem_singleton.mp hmem
        obtain ⟨hbody, hbodySublist⟩ := followingCatch_body handler target (rest.drop _)
        exact ⟨hregion, hbody, hsublist, hbodySublist.trans
          ((List.drop_sublist _ _).trans ((List.sublist_cons_self p rest).trans hsuffix.sublist))⟩

end

/-! ## Termination -/

/-- Nothing is done where nothing has a handler. -/
theorem trySteps_unprotected {handler : Stmt → Option BlockId} {targets : List BlockId}
    {stmts : List IndexedStmt} (h : ∀ p ∈ stmts, handler p.1 = none) :
    trySteps handler targets stmts = stmts.map .keep := by
  have hcollected : collectedBlocks handler targets stmts = [] := by
    refine List.filter_eq_nil_iff.mpr fun c hc htried => ?_
    rw [Bool.and_eq_true] at htried
    obtain ⟨p, hp, hhandler⟩ := triedLater_of_mem handler hc htried.2
    cases (h p hp).symm.trans hhandler
  have hmarked : markedIndices handler targets stmts = [] := by
    simp [markedIndices, markedBlocks, hcollected]
  rw [trySteps, hcollected, hmarked]
  clear hcollected hmarked
  induction stmts with
  | nil => rfl
  | cons p rest ih =>
    have hstep : tryStep handler [] [] p rest = ([], [.keep p], 0) := by
      simp [tryStep, h p List.mem_cons_self]
    rw [scanWith_cons, hstep]
    exact congrArg (TryStep.keep p :: ·) (ih fun q hq => h q (List.mem_cons_of_mem p hq))

theorem mapM_emit {recover : BlockId → List Stmt → Option (List Stmt)} {steps : List TryStep}
    (out : TryStep → List Stmt) (h : ∀ step ∈ steps, step.emit recover = some (out step)) :
    steps.mapM (TryStep.emit recover) = some (steps.map out) := by
  induction steps with
  | nil => rfl
  | cons step steps ih =>
    rw [List.mapM_cons, h step List.mem_cons_self,
      ih fun s hs => h s (List.mem_cons_of_mem step hs)]
    rfl

/-- What a step emits when the bodies of regions stay as they are. -/
def TryStep.stmts (step : TryStep) : List Stmt := step.piece?.toList.map TryPiece.toStmt

theorem flatten_map_piece (steps : List TryStep) : (steps.map TryStep.stmts).flatten =
    (steps.filterMap TryStep.piece?).map TryPiece.toStmt := by
  rw [List.filterMap_eq_flatMap_toList, List.map_flatMap, List.flatMap_def]
  rfl

section Recover

variable {handlers : OrdMap BlockId BlockId} {excluded : OrdSet BlockId}

theorem stmtHandler_insert {stmt : Stmt} {target : BlockId}
    (h : ∀ block, stmtHandler handlers excluded stmt = some block → block = target) :
    stmtHandler handlers (excluded.insert target) stmt = none := by
  unfold stmtHandler at *
  cases hblock : stmt.block?.bind handlers.get? with
  | none => rfl
  | some block =>
    rw [hblock] at h
    by_cases hmem : block = target ∨ block ∈ excluded.keys
    · have hin : block ∈ (excluded.insert target).keys := OrdSet.mem_insert.mpr hmem
      simp [Option.filter_some, hin]
    · rw [not_or] at hmem
      exact absurd (h block (by simp [Option.filter_some, hmem.2])) hmem.1

theorem recoverTryCatchInner_unprotected {n : Nat} {stmts : List Stmt}
    (hne : handlers.toList.isEmpty = false)
    (h : ∀ stmt ∈ stmts, stmtHandler handlers excluded stmt = none) :
    recoverTryCatchInner handlers (n + 1) excluded stmts = some stmts := by
  rw [recoverTryCatchInner]
  split
  · rfl
  · have hplaced : ∀ p ∈ stmts.zipIdx, stmtHandler handlers excluded p.1 = none :=
      fun p hp => h p.1 (List.fst_mem_of_mem_zipIdx hp)
    rw [hne, if_neg (by decide), trySteps_unprotected hplaced,
      mapM_emit TryStep.stmts ?_, Option.map_some, flatten_map_piece]
    · have hkeep : (stmts.zipIdx.map TryStep.keep).filterMap TryStep.piece? =
          stmts.zipIdx.map TryPiece.keep := by
        rw [List.filterMap_map]
        exact congrFun List.filterMap_eq_map stmts.zipIdx
      simp [hkeep, Function.comp_def, TryPiece.toStmt]
    · intro step hstep
      obtain ⟨p, hp, rfl⟩ := List.mem_map.mp hstep
      rfl

/-- The bodies of a region are not taken apart again. -/
theorem emit_of_mem {n : Nat} {stmts : List Stmt} {step : TryStep}
    (hne : handlers.toList.isEmpty = false)
    (h : step ∈ trySteps (stmtHandler handlers excluded) handlers.values stmts.zipIdx) :
    step.emit (fun target body =>
        recoverTryCatchInner handlers (n + 1) (excluded.insert target) body) =
      some step.stmts := by
  cases step with
  | skip p => rfl
  | keep p => rfl
  | region target tryBody source =>
    obtain ⟨htry, hcatch, -, -⟩ := region_of_mem _ h
    have htryBody : ∀ stmt ∈ tryBody.map Prod.fst,
        stmtHandler handlers (excluded.insert target) stmt = none := by
      intro stmt hstmt
      obtain ⟨p, hp, rfl⟩ := List.mem_map.mp hstmt
      refine stmtHandler_insert fun block hblock => ?_
      exact Option.some.inj (hblock.symm.trans (htry p hp))
    have hcatchBody : ∀ stmt ∈ source.body.map Prod.fst,
        stmtHandler handlers (excluded.insert target) stmt = none := by
      intro stmt hstmt
      obtain ⟨p, hp, rfl⟩ := List.mem_map.mp hstmt
      refine stmtHandler_insert fun block hblock => ?_
      have hin := hcatch p hp
      simp only [inCatchBody, hblock, Option.any_some, Bool.and_eq_true, Bool.not_eq_true',
        bne_eq_false_iff_eq] at hin
      exact hin.1
    simp only [TryStep.emit, recoverTryCatchInner_unprotected hne htryBody,
      recoverTryCatchInner_unprotected hne hcatchBody]
    rfl

theorem recoverTryCatch_ends (handlers : OrdMap BlockId BlockId) (stmts : List Stmt) {n : Nat}
    (h : 2 ≤ n) :
    recoverTryCatch handlers n stmts = some ((tryPieces handlers stmts).map TryPiece.toStmt) := by
  obtain ⟨n, rfl⟩ : ∃ m, n = m + 2 := ⟨n - 2, by omega⟩
  rw [recoverTryCatch, recoverTryCatchInner, tryPieces]
  split
  · simp [TryPiece.toStmt, Function.comp_def]
  · split
    · rfl
    · next hne =>
      rw [mapM_emit TryStep.stmts fun step hstep => emit_of_mem (Bool.eq_false_iff.mpr hne) hstep,
        Option.map_some, flatten_map_piece]
      rfl

end Recover

/-! ## Counting -/

/-- The indices of statements. -/
def indicesOf (l : List IndexedStmt) : List Nat := l.map Prod.snd

/-- What a step emits and steps over is what it goes over and uses. -/
theorem count_step (step : TryStep) (i : Nat) :
    (indicesOf (step.piece?.toList.flatMap TryPiece.placed)).count i +
        (indicesOf step.skipped).count i + (indicesOf step.consumedCatch).count i =
      (indicesOf step.covered).count i + (indicesOf step.used).count i := by
  cases step with
  | skip p => simp [TryStep.piece?, TryStep.skipped, TryStep.consumedCatch, TryStep.covered,
      TryStep.used, indicesOf]
  | keep p => simp [TryStep.piece?, TryPiece.placed, TryStep.skipped, TryStep.consumedCatch,
      TryStep.covered, TryStep.used, indicesOf]
  | region target tryBody source =>
    cases source with
    | collected c => simp [TryStep.piece?, TryPiece.placed, TryStep.skipped, TryStep.consumedCatch,
        TryStep.covered, TryStep.used, CatchSource.body, CatchSource.taken, indicesOf]
    | following catchStmt var body =>
      simp [TryStep.piece?, TryPiece.placed, TryStep.skipped, TryStep.consumedCatch,
        TryStep.covered, TryStep.used, CatchSource.body, CatchSource.taken, indicesOf,
        List.count_cons]
      omega
    | missing => simp [TryStep.piece?, TryPiece.placed, TryStep.skipped, TryStep.consumedCatch,
        TryStep.covered, TryStep.used, CatchSource.body, CatchSource.taken, indicesOf]

theorem count_pieces (steps : List TryStep) (i : Nat) :
    (indicesOf ((steps.filterMap TryStep.piece?).flatMap TryPiece.placed)).count i +
        (indicesOf (steps.flatMap TryStep.skipped)).count i +
        (indicesOf (steps.flatMap TryStep.consumedCatch)).count i =
      (indicesOf (steps.flatMap TryStep.covered)).count i +
        (indicesOf (steps.flatMap TryStep.used)).count i := by
  rw [List.filterMap_eq_flatMap_toList, List.flatMap_assoc]
  induction steps with
  | nil => rfl
  | cons step steps ih =>
    have hstep := count_step step i
    simp only [List.flatMap_cons, indicesOf, List.map_append, List.count_append] at ih hstep ⊢
    omega

section

variable {handler : Stmt → Option BlockId} {targets : List BlockId} {stmts : List IndexedStmt}

/-- What a step is, as far as the bodies in use are concerned. -/
inductive TryView (marked : List Nat) (collected : List CatchBlock) (p : IndexedStmt) :
    List CatchBlock × List TryStep × Nat → Prop where
  | skip (hmarked : p.2 ∈ marked) : TryView marked collected p (collected, [.skip p], 0)
  | keep : TryView marked collected p (collected, [.keep p], 0)
  | reuse {target : BlockId} {tryBody : List IndexedStmt} {c : CatchBlock} {n : Nat}
    (hc : collectedFor collected target = some c) :
    TryView marked collected p
      (collected.filter fun d => d.block ≠ target, [.region target tryBody (.collected c)], n)
  | other {target : BlockId} {tryBody : List IndexedStmt} {source : CatchSource} {n : Nat}
    (hnone : collectedFor collected target = none)
    (hused : (TryStep.region target tryBody source).used = [])
    (hcatch : ∀ q ∈ (TryStep.region target tryBody source).consumedCatch, q.1.isCatch = true) :
    TryView marked collected p (collected, [.region target tryBody source], n)

theorem followingCatch_source (target : BlockId) (tryBody l : List IndexedStmt) :
    (TryStep.region target tryBody (followingCatch handler target l)).used = [] ∧
      ∀ q ∈ (TryStep.region target tryBody (followingCatch handler target l)).consumedCatch,
        q.1.isCatch = true := by
  cases l with
  | nil => simp [followingCatch, TryStep.used, TryStep.consumedCatch]
  | cons p rest =>
    cases hvar : p.1.catchVar? with
    | none => simp [followingCatch, hvar, TryStep.used, TryStep.consumedCatch]
    | some var =>
      simp [followingCatch, hvar, TryStep.used, TryStep.consumedCatch, Stmt.isCatch]

variable (handler) in
theorem tryStep_view (marked : List Nat) (collected : List CatchBlock) (p : IndexedStmt)
    (rest : List IndexedStmt) :
    TryView marked collected p (tryStep handler marked collected p rest) := by
  unfold tryStep
  split
  · next hmarked => exact .skip (by simpa using hmarked)
  · split
    · exact .keep
    · next target hhandler =>
      split
      · next c hc => exact .reuse hc
      · next hnone =>
        exact .other hnone (followingCatch_source target _ _).1 (followingCatch_source target _ _).2

theorem collectedFor_filter {collected : List CatchBlock} {target block : BlockId} :
    collectedFor (collected.filter fun d => d.block ≠ target) block =
      if block = target then none else collectedFor collected block := by
  unfold collectedFor
  rw [List.filter_filter]
  split
  · next h =>
    subst h
    rw [List.getLast?_eq_none_iff, List.filter_eq_nil_iff]
    simp
  · next h =>
    congr 1
    refine List.filter_congr fun d _ => ?_
    by_cases hd : d.block = block
    · simp [hd, h]
    · simp [hd]

/-- How often a collected body is used that has the statement. -/
def bodyCount (collected : List CatchBlock) (block : BlockId) (i : Nat) : Nat :=
  ((collectedFor collected block).map fun c => (indicesOf c.body).count i).getD 0

variable (handler stmts) in
/-- A body is used with the first region of its block. -/
theorem count_used (marked : List Nat) (i : Nat) (block : BlockId) (collected : List CatchBlock)
    (honly : ∀ c ∈ collected, i ∈ indicesOf c.body → c.block = block) :
    (indicesOf ((scanWith (tryStep handler marked) collected 0 stmts).flatMap
        TryStep.used)).count i =
      if block ∈ (scanWith (tryStep handler marked) collected 0 stmts).filterMap TryStep.target?
      then bodyCount collected block i else 0 := by
  induction collected, stmts using scanWith_induction (tryStep handler marked) with
  | nil collected => rfl
  | cons collected p rest ih =>
    have hrest := ih fun c hc => honly c (tryStep_collected handler hc)
    rw [scanWith_cons]
    have hview := tryStep_view handler marked collected p rest
    generalize tryStep handler marked collected p rest = result at hrest hview ⊢
    cases hview with
    | skip => simpa [TryStep.used, TryStep.target?] using hrest
    | keep => simpa [TryStep.used, TryStep.target?] using hrest
    | @reuse target tryBody c n hc =>
      obtain ⟨hmem, hblock⟩ := collectedFor_mem hc
      simp only [List.singleton_append, List.flatMap_cons, List.filterMap_cons, TryStep.target?,
        TryStep.used, indicesOf, List.map_append, List.count_append, List.mem_cons] at hrest ⊢
      rw [hrest, bodyCount, collectedFor_filter]
      by_cases heq : block = target
      · subst heq
        simp [bodyCount, hc, indicesOf]
      · have hnot : (c.body.map Prod.snd).count i = 0 := by
          refine List.count_eq_zero.mpr fun hi => heq ?_
          rw [← honly c hmem hi, hblock]
        rw [hnot, if_neg heq]
        simp [heq, bodyCount]
    | @other target tryBody source n hnone hused =>
      simp only [List.singleton_append, List.flatMap_cons, List.filterMap_cons, TryStep.target?,
        hused, List.nil_append, List.mem_cons] at hrest ⊢
      rw [hrest]
      by_cases heq : block = target
      · subst heq
        simp [bodyCount, hnone]
      · simp [heq]

/-! ## Bodies do not overlap -/

theorem catchBlocks_dropWhile {c : CatchBlock} (h : c ∈ catchBlocks handler stmts) {p : IndexedStmt}
    (hp : p ∈ c.body) : p ∈ stmts.dropWhile fun q => !q.1.isCatch := by
  induction stmts with
  | nil => cases h
  | cons q rest ih =>
    cases hcatch : q.1.isCatch with
    | true =>
      rw [List.dropWhile_cons_of_neg (by simp [hcatch])]
      exact (catchBlocks_body handler h).2.subset hp
    | false =>
      rw [List.dropWhile_cons_of_pos (by simp [hcatch])]
      have hvar : q.1.catchVar? = none := by simpa [Stmt.isCatch] using hcatch
      simp only [catchBlocks, hvar] at h
      exact ih h

/-- What a body takes lies in front of the next catch. -/
theorem not_mem_dropWhile {block : BlockId} {p : IndexedStmt} (hnodup : stmts.Nodup)
    (h : p ∈ stmts.takeWhile (inCatchBody handler block)) :
    p ∉ stmts.dropWhile fun q => !q.1.isCatch := by
  induction stmts with
  | nil => cases h
  | cons q rest ih =>
    rw [List.nodup_cons] at hnodup
    by_cases hq : inCatchBody handler block q = true
    · rw [List.takeWhile_cons_of_pos hq] at h
      have hcatch : q.1.isCatch = false := by
        rw [inCatchBody, Bool.and_eq_true, Bool.not_eq_true'] at hq
        simpa using hq.2
      rw [List.dropWhile_cons_of_pos (by simp [hcatch])]
      rcases List.mem_cons.mp h with rfl | h
      · exact fun hmem => hnodup.1 ((List.dropWhile_sublist _).subset hmem)
      · exact ih hnodup.2 h
    · rw [List.takeWhile_cons_of_neg hq] at h
      cases h

theorem eq_of_mem_body {c d : CatchBlock} (hnodup : stmts.Nodup)
    (hc : c ∈ catchBlocks handler stmts) (hd : d ∈ catchBlocks handler stmts) {p : IndexedStmt}
    (hpc : p ∈ c.body) (hpd : p ∈ d.body) : c = d := by
  induction stmts with
  | nil => cases hc
  | cons q rest ih =>
    rw [List.nodup_cons] at hnodup
    rcases mem_catchBlocks_cons handler hc with ⟨var, block, hvar, hblock, rfl⟩ | hc <;>
      rcases mem_catchBlocks_cons handler hd with ⟨var', block', hvar', hblock', rfl⟩ | hd
    · cases hvar.symm.trans hvar'
      cases hblock.symm.trans hblock'
      rfl
    · exact absurd (catchBlocks_dropWhile hd hpd) (not_mem_dropWhile hnodup.2 hpc)
    · exact absurd (catchBlocks_dropWhile hc hpc) (not_mem_dropWhile hnodup.2 hpd)
    · exact ih hnodup.2 hc hd

/-! ## Steps of a list -/

theorem step_of_mem {step : TryStep} (h : step ∈ trySteps handler targets stmts) :
    (∀ p, step = .skip p → p.2 ∈ markedIndices handler targets stmts) ∧
      (∀ q ∈ step.used, ∃ c ∈ collectedBlocks handler targets stmts, q ∈ c.body) ∧
      ∀ q ∈ step.consumedCatch, q.1.isCatch = true := by
  obtain ⟨collected, p, rest, hinv, -, hmem⟩ := exists_step_of_mem_scanWith _
    (fun collected => ∀ c ∈ collected, c ∈ collectedBlocks handler targets stmts)
    (fun _ _ _ hinv c hc => hinv c (tryStep_collected handler hc)) (fun _ hc => hc) h
  have hview := tryStep_view handler (markedIndices handler targets stmts) collected
    p rest
  generalize tryStep handler (markedIndices handler targets stmts) collected p rest = result
    at hmem hview
  cases hview with
  | skip hmarked =>
    cases List.mem_singleton.mp hmem
    refine ⟨fun q hq => ?_, by simp [TryStep.used], by simp [TryStep.consumedCatch]⟩
    cases hq
    exact hmarked
  | keep =>
    cases List.mem_singleton.mp hmem
    simp [TryStep.used, TryStep.consumedCatch]
  | reuse hc =>
    cases List.mem_singleton.mp hmem
    exact ⟨by simp, fun q hq => ⟨_, hinv _ (collectedFor_mem hc).1, hq⟩,
      by simp [TryStep.consumedCatch]⟩
  | other hnone hused hcatch =>
    cases List.mem_singleton.mp hmem
    exact ⟨by simp, by simp [hused], hcatch⟩

theorem consumedCatch_subset (step : TryStep) : step.consumedCatch ⊆ step.covered := by
  intro q hq
  cases step with
  | region target tryBody source =>
    cases source with
    | following catchStmt var body =>
      cases List.mem_singleton.mp hq
      simp [TryStep.covered, CatchSource.taken]
    | _ => cases hq
  | _ => cases hq

theorem skipped_sublist (steps : List TryStep) :
    (steps.flatMap TryStep.skipped).Sublist (steps.flatMap TryStep.covered) := by
  induction steps with
  | nil => exact .slnil
  | cons step steps ih =>
    rw [List.flatMap_cons, List.flatMap_cons]
    refine List.Sublist.append ?_ ih
    cases step <;> first | exact List.Sublist.refl _ | exact List.nil_sublist _

theorem kept_sublist (steps : List TryStep) :
    ((steps.filterMap TryStep.piece?).filterMap TryPiece.kept?).Sublist
      (steps.flatMap TryStep.covered) := by
  induction steps with
  | nil => exact .slnil
  | cons step steps ih =>
    rw [List.flatMap_cons]
    cases step with
    | skip p => exact ih.cons p
    | keep p => exact ih.cons_cons p
    | region target tryBody source => exact ih.trans (List.sublist_append_right _ _)

section IndexedStmt

variable (hnodup : (indicesOf stmts).Nodup)
include hnodup

theorem eq_of_index {p q : IndexedStmt} (hp : p ∈ stmts) (hq : q ∈ stmts) (h : p.2 = q.2) : p = q :=
  List.inj_on_of_nodup_map hnodup hp hq h

theorem count_index {p : IndexedStmt} (hp : p ∈ stmts) : (indicesOf stmts).count p.2 = 1 :=
  List.count_eq_one_of_mem hnodup (List.mem_map_of_mem hp)

/-- A collected body with the statement is the one of the catch in front of it. -/
theorem eq_of_index_mem_body {c d : CatchBlock} (hc : c ∈ catchBlocks handler stmts)
    (hd : d ∈ catchBlocks handler stmts) {p : IndexedStmt} (hp : p ∈ c.body)
    (hi : p.2 ∈ indicesOf d.body) : c = d := by
  obtain ⟨q, hq, hindex⟩ := List.mem_map.mp hi
  have heq := eq_of_index hnodup ((catchBlocks_body handler hd).2.subset hq)
    ((catchBlocks_body handler hc).2.subset hp) hindex
  subst heq
  exact eq_of_mem_body (List.Nodup.of_map _ hnodup) hc hd hp hq

variable (targets) in
/-- A statement of a body is used once, with the last body that was collected for its block. -/
theorem count_used_eq {c : CatchBlock} (hc : c ∈ catchBlocks handler stmts) {p : IndexedStmt}
    (hp : p ∈ c.body) :
    (indicesOf ((trySteps handler targets stmts).flatMap TryStep.used)).count p.2 ≤ 1 ∧
      (p.2 ∈ indicesOf ((trySteps handler targets stmts).flatMap TryStep.used) ↔
        collectedFor (collectedBlocks handler targets stmts) c.block = some c ∧
          c.block ∈ (trySteps handler targets stmts).filterMap TryStep.target?) := by
  have hcollected : ∀ d ∈ collectedBlocks handler targets stmts, d ∈ catchBlocks handler stmts :=
    fun d hd => (List.mem_filter.mp hd).1
  have honly : ∀ d ∈ collectedBlocks handler targets stmts, p.2 ∈ indicesOf d.body → c = d :=
    fun d hd hi => eq_of_index_mem_body hnodup hc (hcollected d hd) hp hi
  have hcount := count_used handler stmts (markedIndices handler targets stmts) p.2 c.block
    (collectedBlocks handler targets stmts) fun d hd hi => by rw [honly d hd hi]
  have hbody : bodyCount (collectedBlocks handler targets stmts) c.block p.2 ≤ 1 ∧
      (0 < bodyCount (collectedBlocks handler targets stmts) c.block p.2 ↔
        collectedFor (collectedBlocks handler targets stmts) c.block = some c) := by
    unfold bodyCount
    cases hd : collectedFor (collectedBlocks handler targets stmts) c.block with
    | none => simp
    | some d =>
      have hmem := (collectedFor_mem hd).1
      have hnodup' : (indicesOf d.body).Nodup :=
        hnodup.sublist ((catchBlocks_body handler (hcollected d hmem)).2.map _)
      refine ⟨List.nodup_iff_count_le_one.mp hnodup' _, ?_⟩
      rw [Option.map_some, Option.getD_some, List.count_pos_iff, Option.some.injEq]
      exact ⟨fun hi => (honly d hmem hi).symm, fun heq => heq ▸ List.mem_map_of_mem hp⟩
  rw [← List.count_pos_iff, trySteps, hcount]
  split
  · next hstarted => exact ⟨hbody.1, by simp [hbody.2, hstarted]⟩
  · next hstarted => simp [hstarted]

/-- Where the passes agree a statement is in one place. -/
theorem count_eq_one_iff {p : IndexedStmt} (hp : p ∈ stmts) (hcatch : p.1.isCatch = false)
    (hused : (indicesOf ((trySteps handler targets stmts).flatMap TryStep.used)).count p.2 ≤ 1) :
    (indicesOf (((trySteps handler targets stmts).filterMap TryStep.piece?).flatMap
        TryPiece.placed)).count p.2 = 1 ↔
      (.skip p ∈ trySteps handler targets stmts ↔
        p.2 ∈ indicesOf ((trySteps handler targets stmts).flatMap TryStep.used)) := by
  have hcount := count_pieces (trySteps handler targets stmts) p.2
  have hcovered := trySteps_covered handler targets stmts
  have hskipped := skipped_sublist (trySteps handler targets stmts)
  rw [hcovered] at hskipped hcount
  rw [count_index hnodup hp] at hcount
  have hno : (indicesOf ((trySteps handler targets stmts).flatMap TryStep.consumedCatch)).count p.2
      = 0 := by
    refine List.count_eq_zero.mpr fun hi => ?_
    obtain ⟨q, hq, hindex⟩ := List.mem_map.mp hi
    obtain ⟨step, hstep, hq⟩ := List.mem_flatMap.mp hq
    have hmem : q ∈ stmts := by
      rw [← hcovered]
      exact List.mem_flatMap.mpr ⟨step, hstep, consumedCatch_subset step hq⟩
    have hqcatch := (step_of_mem hstep).2.2 q hq
    rw [eq_of_index hnodup hmem hp hindex, hcatch] at hqcatch
    cases hqcatch
  have hskip : .skip p ∈ trySteps handler targets stmts ↔
      p.2 ∈ indicesOf ((trySteps handler targets stmts).flatMap TryStep.skipped) := by
    constructor
    · exact fun h => List.mem_map_of_mem (List.mem_flatMap.mpr ⟨_, h, List.mem_singleton_self p⟩)
    · intro h
      obtain ⟨q, hq, hindex⟩ := List.mem_map.mp h
      obtain rfl := eq_of_index hnodup (hskipped.subset hq) hp hindex
      obtain ⟨step, hstep, hq⟩ := List.mem_flatMap.mp hq
      cases step with
      | skip q' =>
        cases List.mem_singleton.mp hq
        exact hstep
      | _ => cases hq
  have hle : (indicesOf ((trySteps handler targets stmts).flatMap TryStep.skipped)).count p.2 ≤ 1 :=
    List.nodup_iff_count_le_one.mp (hnodup.sublist (hskipped.map _)) _
  rw [hskip, ← List.count_pos_iff, ← List.count_pos_iff]
  omega

/-- Every statement is in one place exactly if the passes agree on the marked bodies. -/
theorem once_iff :
    (∀ p ∈ stmts, p.1.isCatch = false →
      (indicesOf (((trySteps handler targets stmts).filterMap TryStep.piece?).flatMap
        TryPiece.placed)).count p.2 = 1) ↔
    ∀ c ∈ markedBlocks handler targets stmts, ∀ p ∈ c.body,
      (.skip p ∈ trySteps handler targets stmts ↔
        collectedFor (collectedBlocks handler targets stmts) c.block = some c ∧
          c.block ∈ (trySteps handler targets stmts).filterMap TryStep.target?) := by
  constructor
  · intro h c hc p hp
    have hc := (List.mem_filter.mp hc).1
    obtain ⟨hin, hsublist⟩ := catchBlocks_body handler hc
    have hcatch : p.1.isCatch = false := by
      have hbody := hin p hp
      rw [inCatchBody, Bool.and_eq_true] at hbody
      simpa using hbody.2
    obtain ⟨hle, hused⟩ := count_used_eq targets hnodup hc hp
    rw [← hused]
    exact (count_eq_one_iff hnodup (hsublist.subset hp) hcatch hle).mp
      (h p (hsublist.subset hp) hcatch)
  · intro h p hp hcatch
    by_cases hbody : ∃ c ∈ markedBlocks handler targets stmts, p ∈ c.body
    · obtain ⟨c, hc, hpc⟩ := hbody
      obtain ⟨hle, hused⟩ := count_used_eq targets hnodup (List.mem_filter.mp hc).1 hpc
      rw [count_eq_one_iff hnodup hp hcatch hle, hused]
      exact h c hc p hpc
    · have hused : p.2 ∉ indicesOf ((trySteps handler targets stmts).flatMap TryStep.used) := by
        intro hi
        obtain ⟨q, hq, hindex⟩ := List.mem_map.mp hi
        obtain ⟨step, hstep, hq⟩ := List.mem_flatMap.mp hq
        obtain ⟨c, hc, hqc⟩ := (step_of_mem hstep).2.1 q hq
        have hblock := (List.mem_filter.mp hc).1
        obtain rfl := eq_of_index hnodup ((catchBlocks_body handler hblock).2.subset hqc) hp hindex
        refine hbody ⟨c, List.mem_filter.mpr ⟨hblock, ?_⟩, hqc⟩
        exact List.any_eq_true.mpr ⟨c, hc, by simp⟩
      have hskip : .skip p ∉ trySteps handler targets stmts := by
        intro hskip
        have hmarked := (step_of_mem hskip).1 p rfl
        obtain ⟨c, hc, hi⟩ := List.mem_flatMap.mp hmarked
        have hblock := (List.mem_filter.mp hc).1
        rcases List.mem_cons.mp hi with hplace | hi
        · obtain ⟨q, hq, hqplace, hqcatch⟩ := catchBlocks_place handler hblock
          rw [eq_of_index hnodup hq hp (hqplace.trans hplace.symm), hcatch] at hqcatch
          cases hqcatch
        · obtain ⟨q, hq, hindex⟩ := List.mem_map.mp hi
          obtain rfl :=
            eq_of_index hnodup ((catchBlocks_body handler hblock).2.subset hq) hp hindex
          exact hbody ⟨c, hc, hq⟩
      have hzero := List.count_eq_zero.mpr hused
      exact (count_eq_one_iff hnodup hp hcatch (by omega)).mpr (iff_of_false hskip hused)

end IndexedStmt

end

/-! ## Lists without handlers -/

theorem placed_sublist {pieces : List TryPiece} {tryBody : List IndexedStmt} {var : String}
    {catchBody : List IndexedStmt} (h : .tryCatch tryBody var catchBody ∈ pieces) :
    (tryBody ++ catchBody).Sublist (pieces.flatMap TryPiece.placed) :=
  List.sublist_flatten_of_mem (List.mem_map_of_mem h)

/-- The list is cut, and only the catches are gone. -/
theorem splitStep_placed (p : IndexedStmt) (rest : List IndexedStmt) :
    (p :: rest).filter notCatch = (splitStep p rest).1.flatMap TryPiece.placed ++
      (rest.drop (splitStep p rest).2).filter notCatch := by
  have hwhole := takeWhile_append_drop notCatch (p :: rest)
  have hstop := List.head?_dropWhile_not notCatch (p :: rest)
  rw [← drop_takeWhile] at hstop
  unfold splitStep
  simp only
  have htry : ((p :: rest).takeWhile notCatch).filter notCatch = (p :: rest).takeWhile notCatch :=
    List.filter_eq_self.mpr fun q hq => List.mem_takeWhile_imp hq
  generalize (p :: rest).takeWhile notCatch = tryBody at hwhole hstop htry ⊢
  split
  · next hdrop =>
    rw [hdrop, List.append_nil] at hwhole
    rw [← hwhole, htry, List.drop_length, List.filter_nil, List.append_nil, List.flatMap_map]
    exact (List.flatMap_singleton' tryBody).symm
  · next catchStmt left hdrop =>
    rw [hdrop] at hwhole hstop
    have hleft := takeWhile_append_drop notCatch left
    have hcatch : (left.takeWhile notCatch).filter notCatch = left.takeWhile notCatch :=
      List.filter_eq_self.mpr fun q hq => List.mem_takeWhile_imp hq
    generalize left.takeWhile notCatch = catchBody at hleft hcatch ⊢
    have hrest : rest.drop (tryBody.length + catchBody.length) = left.drop catchBody.length := by
      have hcons : (p :: rest).drop (tryBody.length + (catchBody.length + 1)) =
          left.drop catchBody.length := by
        rw [← List.drop_drop, hdrop, List.drop_succ_cons]
      rwa [← Nat.add_assoc, List.drop_succ_cons] at hcons
    have hpiece : (if tryBody.isEmpty && catchBody.isEmpty then ([] : List TryPiece)
        else [.tryCatch tryBody (catchStmt.1.catchVar?.getD "err") catchBody]).flatMap
          TryPiece.placed = tryBody ++ catchBody := by
      cases tryBody <;> cases catchBody <;> simp [TryPiece.placed]
    rw [← hwhole, List.filter_append, htry, List.filter_cons_of_neg (by simpa using hstop), hpiece,
      hrest, List.append_assoc]
    conv_lhs => rw [← hleft, List.filter_append, hcatch]

theorem split_placed (stmts : List IndexedStmt) :
    (scan splitStep 0 stmts).flatMap TryPiece.placed = stmts.filter notCatch := by
  induction stmts using scan_induction splitStep with
  | nil => rfl
  | cons p rest ih => rw [scan_cons, List.flatMap_append, ih, ← splitStep_placed]

/-- The pieces are the list without its catches. -/
theorem conservesStatements_of_placed {stmts : List IndexedStmt} {pieces : List TryPiece}
    (hnodup : (indicesOf stmts).Nodup) (h : pieces.flatMap TryPiece.placed = stmts.filter notCatch) :
    ConservesStatements stmts pieces := by
  have hsublist : (pieces.flatMap TryPiece.placed).Sublist stmts := by
    rw [h]
    exact List.filter_sublist
  constructor
  · intro p hp hcatch
    refine List.count_eq_one_of_mem (hnodup.sublist (hsublist.map _)) (List.mem_map_of_mem ?_)
    rw [h]
    exact List.mem_filter.mpr ⟨hp, by simp [notCatch, hcatch]⟩
  · intro tryBody var catchBody hmem
    have hboth := (placed_sublist hmem).trans hsublist
    exact ⟨(List.sublist_append_left _ _).trans hboth, (List.sublist_append_right _ _).trans hboth⟩
  · refine List.Sublist.trans ?_ hsublist
    clear h hsublist
    induction pieces with
    | nil => exact .slnil
    | cons piece pieces ih =>
      rw [List.flatMap_cons]
      cases piece with
      | keep p => exact ih.cons_cons p
      | tryCatch tryBody var catchBody => exact ih.trans (List.sublist_append_right _ _)

/-! ## The condition -/

theorem indices_nodup (stmts : List Stmt) : (indicesOf stmts.zipIdx).Nodup := by
  rw [indicesOf, List.zipIdx_map_snd]
  exact List.nodup_range'

/-- Nothing is marked where no later statement has the block of a catch as its handler. -/
theorem passesAgree_of_unmarked {handlers : OrdMap BlockId BlockId} {stmts : List Stmt}
    (h : ∀ c ∈ catchBlocks (stmtHandler handlers OrdSet.empty) stmts.zipIdx,
      c.triedLater = false) : PassesAgree handlers stmts := by
  intro c hc
  have hany := (List.mem_filter.mp hc).2
  obtain ⟨d, hd, -⟩ := List.any_eq_true.mp hany
  obtain ⟨hd, htried⟩ := List.mem_filter.mp hd
  rw [Bool.and_eq_true, h d hd] at htried
  cases htried.2

/-- The recovery conserves the statements exactly if its three passes agree. -/
theorem recoversTryCatch_iff_passesAgree (handlers : OrdMap BlockId BlockId) (stmts : List Stmt) :
    RecoversTryCatch handlers stmts ↔ PassesAgree handlers stmts := by
  have hnodup := indices_nodup stmts
  have hends : ∀ n, 2 ≤ n →
      recoverTryCatch handlers n stmts = some ((tryPieces handlers stmts).map TryPiece.toStmt) :=
    fun n => recoverTryCatch_ends handlers stmts
  by_cases hcatch : stmts.any Stmt.isCatch = true
  · by_cases hempty : handlers.toList.isEmpty = true
    · have hpieces : tryPieces handlers stmts = scan splitStep 0 stmts.zipIdx := by
        simp [tryPieces, hcatch, hempty]
      refine iff_of_true ⟨hends, ?_⟩ (passesAgree_of_unmarked fun c hc => ?_)
      · rw [hpieces]
        exact conservesStatements_of_placed hnodup (split_placed _)
      · by_contra htried
        obtain ⟨p, -, hhandler⟩ := triedLater_of_mem _ hc (by simpa using htried)
        have hnone : handlers.get? = fun _ => none := by
          funext block
          simp [OrdMap.get?, List.isEmpty_iff.mp hempty]
        simp [stmtHandler, hnone] at hhandler
    · have hpieces : tryPieces handlers stmts =
          (topSteps handlers stmts).filterMap TryStep.piece? := by
        simp [tryPieces, hcatch, hempty]
      rw [PassesAgree, topSteps, ← once_iff hnodup]
      constructor
      · intro h p hp hnot
        have hone := h.conserves.once p hp hnot
        rw [hpieces] at hone
        exact hone
      · intro h
        refine ⟨hends, ?_, ?_, ?_⟩
        · rw [hpieces]
          exact h
        · intro tryBody var catchBody hmem
          rw [hpieces] at hmem
          obtain ⟨step, hstep, hpiece⟩ := List.mem_filterMap.mp hmem
          cases step with
          | region target tryBody' source =>
            cases hpiece
            exact (region_of_mem _ hstep).2.2
          | _ => cases hpiece
        · rw [hpieces]
          have hkept := kept_sublist (topSteps handlers stmts)
          rwa [topSteps, trySteps_covered] at hkept
  · have hpieces : tryPieces handlers stmts = stmts.zipIdx.map .keep := by
      simp [tryPieces, hcatch]
    refine iff_of_true ⟨hends, ?_⟩ (passesAgree_of_unmarked fun c hc => ?_)
    · rw [hpieces]
      refine conservesStatements_of_placed hnodup ?_
      rw [List.flatMap_map, List.filter_eq_self.mpr]
      · exact List.flatMap_singleton' stmts.zipIdx
      · intro p hp
        by_contra hnot
        rw [notCatch, Bool.not_eq_true, Bool.not_eq_false'] at hnot
        exact hcatch (List.any_eq_true.mpr ⟨p.1, List.fst_mem_of_mem_zipIdx hp, hnot⟩)
    · obtain ⟨p, hp, -, hisCatch⟩ := catchBlocks_place _ hc
      exact absurd (List.any_eq_true.mpr ⟨p.1, List.fst_mem_of_mem_zipIdx hp, hisCatch⟩) hcatch

end Hermes.Structure
