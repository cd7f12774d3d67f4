-- SUMMARY: Lists whose catches and try regions lie apart: there the recovery of try regions keeps every statement once.
import DroidsawHermes.Structure.TryCatchRecovery

/-!
# Catches apart from regions

A catch may stand in front of the region it catches for. The recovery conserves the statements
where each block has one such catch with a body, a region of the block lies outside all such
bodies, and no other region runs up to the catch.
-/

namespace Hermes.Structure

open Decompile Scan

/-! ## Places -/

section Places

variable (handler : Stmt → Option BlockId) (stmts : List Stmt)

/-- The block that catches for the statement at a place. -/
def handlerAt (i : Nat) : Option BlockId := stmts[i]?.bind handler

/-- The block of the catch at a place. -/
def catchAt (i : Nat) : Option BlockId := (stmts[i]?.filter Stmt.isCatch).bind Stmt.block?

def TriedBehind (b : BlockId) (i : Nat) : Prop :=
  ∃ j, i < j ∧ handlerAt handler stmts j = some b

/-- A catch of the block stands in front of a statement that the block catches for. -/
def CaughtAhead (b : BlockId) : Prop := ∃ i, catchAt stmts i = some b ∧ TriedBehind handler stmts b i

/-- From the catch of block `b` at place `c` up to place `i` there is no other catch, and no
statement with another handler. -/
structure InBody (b : BlockId) (c i : Nat) : Prop where
  caught : catchAt stmts c = some b
  behind : c < i
  own : ∀ j, c < j → j ≤ i →
    ∃ s, stmts[j]? = some s ∧ s.isCatch = false ∧ ∀ t, handler s = some t → t = b

/-- The body belongs to a block that has a catch in front of a region. -/
def AheadBody (b : BlockId) (c i : Nat) : Prop :=
  CaughtAhead handler stmts b ∧ InBody handler stmts b c i

/-- Regions keep away from the catches with a body to be collected. -/
structure RegionsApart : Prop where
  /-- No region of its own block runs over the catch into the body. -/
  through : ∀ b k, AheadBody handler stmts b (k + 1) (k + 2) →
    handlerAt handler stmts k = some b → handlerAt handler stmts (k + 1) = some b →
      handlerAt handler stmts (k + 2) = some b → ∃ b' c', AheadBody handler stmts b' c' k
  /-- A region that ends in front of the catch has a catch of its own, and is its first one. -/
  front : ∀ b k t, AheadBody handler stmts b (k + 1) (k + 2) →
    handlerAt handler stmts k = some t → handlerAt handler stmts (k + 1) ≠ some t →
      (∃ b' c', AheadBody handler stmts b' c' k) ∨ CaughtAhead handler stmts t ∧
        ∀ i j, i < j → j ≤ k → handlerAt handler stmts i = some t →
          handlerAt handler stmts j = some t

/-- Each block has one catch with a body to be collected, and a region outside all of them. -/
structure CatchesApart : Prop extends RegionsApart handler stmts where
  /-- A catch with a body is the last one that stands in front of a region of its block. -/
  last : ∀ b c i, AheadBody handler stmts b c i → TriedBehind handler stmts b c ∧
    ∀ d, c < d → catchAt stmts d = some b → ¬ TriedBehind handler stmts b d
  /-- Its block catches for a statement outside all such bodies. -/
  region : ∀ b c i, AheadBody handler stmts b c i → ∃ j s, stmts[j]? = some s ∧
    s.isCatch = false ∧ handler s = some b ∧ ∀ b' c', ¬ AheadBody handler stmts b' c' j

variable {handler stmts}

theorem mem_zipIdx {p : IndexedStmt} : p ∈ stmts.zipIdx ↔ stmts[p.2]? = some p.1 :=
  List.mem_zipIdx_iff_getElem?

theorem handlerAt_of_mem {p : IndexedStmt} (hp : p ∈ stmts.zipIdx) :
    handlerAt handler stmts p.2 = handler p.1 := by
  rw [handlerAt, mem_zipIdx.mp hp, Option.bind_some]

theorem catchAt_eq_some {i : Nat} {b : BlockId} : catchAt stmts i = some b ↔
    ∃ s, stmts[i]? = some s ∧ s.isCatch = true ∧ s.block? = some b := by
  simp only [catchAt, Option.bind_eq_some_iff, Option.filter_eq_some_iff, and_assoc]

/-- What is left of the list at a statement. -/
theorem suffix_zipIdx {p : IndexedStmt} {rest : List IndexedStmt}
    (h : (p :: rest) <:+ stmts.zipIdx) :
    p ∈ stmts.zipIdx ∧ rest = stmts.zipIdx.drop (p.2 + 1) := by
  obtain ⟨before, hlist⟩ := h
  have hget : stmts.zipIdx[before.length]? = some p := by
    rw [← hlist, List.getElem?_append_right (Nat.le_refl _), Nat.sub_self]
    rfl
  have hplace : p.2 = before.length := by
    rw [List.getElem?_zipIdx, Option.map_eq_some_iff] at hget
    obtain ⟨s, -, rfl⟩ := hget
    simp
  refine ⟨List.mem_of_getElem? hget, ?_⟩
  simp [hplace, ← hlist]

theorem lt_of_mem_suffix {p q : IndexedStmt} {rest : List IndexedStmt}
    (h : (p :: rest) <:+ stmts.zipIdx) (hq : q ∈ rest) : p.2 < q.2 := by
  rw [(suffix_zipIdx h).2, mem_drop_zipIdx] at hq
  exact hq.1

/-! ## Catches and their bodies -/

theorem catchBlocks_suffix {l : List IndexedStmt} {c : CatchBlock}
    (h : c ∈ catchBlocks handler l) : ∃ p rest, (p :: rest) <:+ l ∧ p.1.isCatch = true ∧
      p.1.block? = some c.block ∧ c.place = p.2 ∧
      c.body = rest.takeWhile (inCatchBody handler c.block) ∧
      c.triedLater = rest.any fun q => handler q.1 = some c.block := by
  induction l with
  | nil => cases h
  | cons p rest ih =>
    rcases mem_catchBlocks_cons handler h with ⟨var, block, hvar, hblock, rfl⟩ | h
    · exact ⟨p, rest, List.suffix_rfl, by rw [Stmt.isCatch, hvar]; rfl, hblock, rfl, rfl, rfl⟩
    · obtain ⟨q, left, hsuffix, hfacts⟩ := ih h
      exact ⟨q, left, hsuffix.trans (List.suffix_cons p rest), hfacts⟩

theorem inCatchBody_iff {b : BlockId} {p : IndexedStmt} : inCatchBody handler b p = true ↔
    (∀ t, handler p.1 = some t → t = b) ∧ p.1.isCatch = false := by
  rw [inCatchBody, Bool.and_eq_true, Bool.not_eq_true', Bool.not_eq_true']
  refine and_congr_left' ?_
  cases handler p.1 <;> simp

/-- The catches have a block, and the places of their bodies. -/
theorem catchBlock_at {c : CatchBlock} (h : c ∈ catchBlocks handler stmts.zipIdx) :
    catchAt stmts c.place = some c.block ∧
      (c.triedLater = true ↔ TriedBehind handler stmts c.block c.place) ∧
      ∀ p, p ∈ c.body ↔ InBody handler stmts c.block c.place p.2 ∧ p ∈ stmts.zipIdx := by
  obtain ⟨q, rest, hsuffix, hcatch, hblock, hplace, hbody, htried⟩ := catchBlocks_suffix h
  obtain ⟨hq, hrest⟩ := suffix_zipIdx hsuffix
  have hcaught : catchAt stmts c.place = some c.block :=
    hplace ▸ catchAt_eq_some.mpr ⟨q.1, mem_zipIdx.mp hq, hcatch, hblock⟩
  refine ⟨hcaught, ?_, fun p => ?_⟩
  · rw [htried, List.any_eq_true, hplace]
    constructor
    · rintro ⟨p, hp, hhandler⟩
      have hmem : p ∈ stmts.zipIdx :=
        hsuffix.subset (List.mem_cons_of_mem q hp)
      exact ⟨p.2, lt_of_mem_suffix hsuffix hp,
        (handlerAt_of_mem hmem).trans (by simpa using hhandler)⟩
    · rintro ⟨j, hj, hhandler⟩
      obtain ⟨s, hget, hs⟩ := Option.bind_eq_some_iff.mp hhandler
      refine ⟨(s, j), ?_, by simpa using hs⟩
      rw [hrest, mem_drop_zipIdx]
      exact ⟨hj, hget⟩
  · obtain ⟨hall, hstop, hmem⟩ :=
      takeWhile_drop_zipIdx stmts (inCatchBody handler c.block) (q.2 + 1)
    rw [← hrest, ← hbody, ← hplace] at hall hstop hmem
    rw [hmem, ← mem_zipIdx]
    constructor
    · rintro ⟨hle, hlt, hp⟩
      refine ⟨⟨hcaught, hle, fun j hj hjp => ?_⟩, hp⟩
      obtain ⟨s, hget, hs⟩ := hall j hj (by omega)
      exact ⟨s, hget, (inCatchBody_iff.mp hs).symm⟩
    · rintro ⟨hin, hp⟩
      refine ⟨hin.behind, ?_, hp⟩
      by_contra hend
      obtain ⟨s, hget, hs⟩ := hin.own (c.place + 1 + c.body.length) (by omega) (by omega)
      have hstopped := hstop s hget
      rw [inCatchBody_iff.mpr hs.symm] at hstopped
      cases hstopped

theorem exists_catchBlock {i : Nat} {b : BlockId} (h : catchAt stmts i = some b) :
    ∃ c ∈ catchBlocks handler stmts.zipIdx, c.block = b ∧ c.place = i := by
  obtain ⟨s, hget, hcatch, hblock⟩ := catchAt_eq_some.mp h
  have hmem : (s, i) ∈ stmts.zipIdx := mem_zipIdx.mpr hget
  generalize stmts.zipIdx = l at hmem
  induction l with
  | nil => cases hmem
  | cons p rest ih =>
    rcases List.mem_cons.mp hmem with rfl | hmem
    · obtain ⟨var, hvar⟩ := Option.isSome_iff_exists.mp hcatch
      simp only [catchBlocks, hvar, hblock]
      exact ⟨_, List.mem_cons_self, rfl, rfl⟩
    · obtain ⟨c, hc, hfacts⟩ := ih hmem
      refine ⟨c, ?_, hfacts⟩
      rw [catchBlocks]
      split
      · exact List.mem_cons_of_mem _ hc
      · exact hc

/-- The catches are listed in the order of the statements. -/
theorem catchBlocks_sorted (stmts : List Stmt) :
    (catchBlocks handler stmts.zipIdx).Pairwise fun c d => c.place < d.place := by
  have hsorted : ∀ l : List IndexedStmt, l <:+ stmts.zipIdx →
      (catchBlocks handler l).Pairwise fun c d => c.place < d.place := by
    intro l hsuffix
    induction l with
    | nil => exact .nil
    | cons p rest ih =>
      have hrest := ih ((List.suffix_cons p rest).trans hsuffix)
      rw [catchBlocks]
      split
      · refine List.pairwise_cons.mpr ⟨fun d hd => ?_, hrest⟩
        obtain ⟨q, hq, hplace, -⟩ := catchBlocks_place handler hd
        exact hplace ▸ lt_of_mem_suffix hsuffix hq
      · exact hrest
  exact hsorted _ List.suffix_rfl

section Targets

variable {targets : List BlockId}
  (htargets : ∀ i b, handlerAt handler stmts i = some b → b ∈ targets)
include htargets

/-- What is collected are the catches in front of a region of their block. -/
theorem mem_collectedBlocks {c : CatchBlock} :
    c ∈ collectedBlocks handler targets stmts.zipIdx ↔
      c ∈ catchBlocks handler stmts.zipIdx ∧ TriedBehind handler stmts c.block c.place := by
  rw [collectedBlocks, List.mem_filter, Bool.and_eq_true]
  refine and_congr_right fun hc => ?_
  rw [(catchBlock_at hc).2.1, List.contains_iff_mem]
  refine ⟨And.right, fun htried => ⟨?_, htried⟩⟩
  obtain ⟨j, -, hj⟩ := htried
  exact htargets j c.block hj

theorem collected_iff_caughtAhead {b : BlockId} :
    (∃ c ∈ collectedBlocks handler targets stmts.zipIdx, c.block = b) ↔
      CaughtAhead handler stmts b := by
  constructor
  · rintro ⟨c, hc, rfl⟩
    obtain ⟨hc, htried⟩ := (mem_collectedBlocks htargets).mp hc
    exact ⟨c.place, (catchBlock_at hc).1, htried⟩
  · rintro ⟨i, hcaught, htried⟩
    obtain ⟨c, hc, rfl, rfl⟩ := @exists_catchBlock handler _ _ _ hcaught
    exact ⟨c, (mem_collectedBlocks htargets).mpr ⟨hc, htried⟩, rfl⟩

theorem mem_markedBlocks {c : CatchBlock} :
    c ∈ markedBlocks handler targets stmts.zipIdx ↔
      c ∈ catchBlocks handler stmts.zipIdx ∧ CaughtAhead handler stmts c.block := by
  rw [markedBlocks, List.mem_filter, ← collected_iff_caughtAhead htargets]
  simp

/-- The marked places: the catches and the bodies of blocks that have a catch ahead. -/
theorem mem_markedIndices {i : Nat} (hi : i < stmts.length) :
    i ∈ markedIndices handler targets stmts.zipIdx ↔
      (∃ b, catchAt stmts i = some b ∧ CaughtAhead handler stmts b) ∨
        ∃ b c, AheadBody handler stmts b c i := by
  have hmem : (stmts[i], i) ∈ stmts.zipIdx := mem_zipIdx.mpr (by simp [hi])
  rw [markedIndices, List.mem_flatMap]
  constructor
  · rintro ⟨c, hc, hplace⟩
    obtain ⟨hc, hahead⟩ := (mem_markedBlocks htargets).mp hc
    obtain ⟨hcaught, -, hbody⟩ := catchBlock_at hc
    rcases List.mem_cons.mp hplace with rfl | hplace
    · exact Or.inl ⟨c.block, hcaught, hahead⟩
    · obtain ⟨p, hp, rfl⟩ := List.mem_map.mp hplace
      exact Or.inr ⟨c.block, c.place, hahead, ((hbody p).mp hp).1⟩
  · rintro (⟨b, hcaught, hahead⟩ | ⟨b, d, hahead, hin⟩)
    · obtain ⟨c, hc, rfl, rfl⟩ := @exists_catchBlock handler _ _ _ hcaught
      exact ⟨c, (mem_markedBlocks htargets).mpr ⟨hc, hahead⟩, List.mem_cons_self⟩
    · obtain ⟨c, hc, rfl, rfl⟩ := @exists_catchBlock handler _ _ _ hin.caught
      refine ⟨c, (mem_markedBlocks htargets).mpr ⟨hc, hahead⟩, List.mem_cons_of_mem _ ?_⟩
      exact List.mem_map.mpr ⟨_, ((catchBlock_at hc).2.2 _).mpr ⟨hin, hmem⟩, rfl⟩

end Targets

/-! ## Regions -/

/-- A collected body is still there, or a region of its block has ended. -/
def StillCollected (handler : Stmt → Option BlockId) (targets : List BlockId) (stmts : List Stmt)
    (collected : List CatchBlock) (rest : List IndexedStmt) : Prop :=
  rest <:+ stmts.zipIdx ∧ ∀ d ∈ collectedBlocks handler targets stmts.zipIdx, d ∈ collected ∨
    ∀ x ∈ rest, ∃ i j, i < j ∧ j ≤ x.2 ∧ handlerAt handler stmts i = some d.block ∧
      handlerAt handler stmts j ≠ some d.block

/-- The places of a region: a run of statements of one handler that begins at an unmarked one.
What it takes behind them is a catch and its body, and then no body for it is collected. -/
structure RegionPlaces (handler : Stmt → Option BlockId) (targets : List BlockId)
    (stmts : List Stmt) (target : BlockId) (tryBody : List IndexedStmt) (source : CatchSource)
    (first stop : Nat) : Prop where
  unmarked : first ∉ markedIndices handler targets stmts.zipIdx
  order : first < stop
  run : ∀ j, first ≤ j → j < stop → handlerAt handler stmts j = some target
  stopped : handlerAt handler stmts stop ≠ some target
  body : ∀ p ∈ tryBody, first ≤ p.2 ∧ p.2 < stop
  whole : ∀ j, first ≤ j → j < stop → ∃ p ∈ tryBody, p.2 = j
  taken : ∀ p ∈ source.taken, stop ≤ p.2 ∧ (∃ s, stmts[stop]? = some s ∧ s.isCatch = true) ∧
    ∀ j, stop < j → j ≤ p.2 → ∃ s, stmts[j]? = some s ∧ s.isCatch = false
  uncollected : source.taken ≠ [] →
    (∀ d ∈ collectedBlocks handler targets stmts.zipIdx, d.block ≠ target) ∨
      ∃ i j, i < j ∧ j ≤ first ∧ handlerAt handler stmts i = some target ∧
        handlerAt handler stmts j ≠ some target

variable {targets : List BlockId} {target : BlockId} {p : IndexedStmt} {rest : List IndexedStmt}

/-- The run of a region. -/
theorem run_places (hsuffix : (p :: rest) <:+ stmts.zipIdx) (hhandler : handler p.1 = some target)
    {run : List IndexedStmt}
    (hrun : (rest.takeWhile fun q => decide (handler q.1 = some target)) = run) :
    (∀ j, p.2 ≤ j → j < p.2 + 1 + run.length → handlerAt handler stmts j = some target) ∧
      handlerAt handler stmts (p.2 + 1 + run.length) ≠ some target ∧
      (∀ q ∈ p :: run, p.2 ≤ q.2 ∧ q.2 < p.2 + 1 + run.length) ∧
      (∀ j, p.2 ≤ j → j < p.2 + 1 + run.length → ∃ q ∈ p :: run, q.2 = j) ∧
      rest.drop run.length = stmts.zipIdx.drop (p.2 + 1 + run.length) := by
  obtain ⟨hp, hrest⟩ := suffix_zipIdx hsuffix
  obtain ⟨hall, hstop, hmem⟩ :=
    takeWhile_drop_zipIdx stmts (fun q => decide (handler q.1 = some target)) (p.2 + 1)
  rw [← hrest, hrun] at hall hstop hmem
  refine ⟨fun j hj hlt => ?_, fun hstopped => ?_, fun q hq => ?_, fun j hj hlt => ?_, ?_⟩
  · by_cases heq : j = p.2
    · rw [heq, handlerAt_of_mem hp, hhandler]
    · obtain ⟨s, hget, hs⟩ := hall j (by omega) hlt
      rw [handlerAt, hget]
      simpa using hs
  · obtain ⟨s, hget, hs⟩ := Option.bind_eq_some_iff.mp hstopped
    have hfalse := hstop s hget
    simp [hs] at hfalse
  · rcases List.mem_cons.mp hq with rfl | hq
    · omega
    · obtain ⟨hle, hlt, -⟩ := (hmem q).mp hq
      omega
  · by_cases heq : j = p.2
    · exact ⟨p, List.mem_cons_self, heq.symm⟩
    · obtain ⟨s, hget, -⟩ := hall j (by omega) hlt
      exact ⟨(s, j), List.mem_cons_of_mem p ((hmem (s, j)).mpr ⟨by omega, hlt, hget⟩), rfl⟩
  · rw [hrest, List.drop_drop]

theorem StillCollected.of_drop {collected : List CatchBlock}
    (h : StillCollected handler targets stmts collected (p :: rest)) (n : Nat) :
    StillCollected handler targets stmts collected (rest.drop n) := by
  have hsuffix : rest.drop n <:+ p :: rest :=
    (List.drop_suffix n rest).trans (List.suffix_cons p rest)
  exact ⟨hsuffix.trans h.1, fun d hd =>
    (h.2 d hd).imp_right fun hended x hx => hended x (hsuffix.subset hx)⟩

/-- A step uses a collected body only for a region of its block, which then has ended. -/
theorem stillCollected_step (marked : List Nat) {collected : List CatchBlock}
    (h : StillCollected handler targets stmts collected (p :: rest)) :
    StillCollected handler targets stmts (tryStep handler marked collected p rest).1
      (rest.drop (tryStep handler marked collected p rest).2.2) := by
  unfold tryStep
  split
  · exact h.of_drop 0
  · split
    · exact h.of_drop 0
    · next target hhandler =>
      dsimp only
      split
      · next c hcollected =>
        obtain ⟨hrun, hstop, -, -, hdrop⟩ := run_places h.1 hhandler rfl
        obtain ⟨hsuffix, hkept⟩ := h.of_drop
          (rest.takeWhile fun q => decide (handler q.1 = some target)).length
        refine ⟨hsuffix, fun d hd => ?_⟩
        by_cases hblock : d.block = target
        · rw [hblock]
          refine Or.inr fun x hx => ⟨p.2, _, by omega, ?_, hrun p.2 (Nat.le_refl _) (by omega), hstop⟩
          rw [hdrop, mem_drop_zipIdx] at hx
          exact hx.1
        · refine (hkept d hd).imp_left fun hmem => List.mem_filter.mpr ⟨hmem, ?_⟩
          simpa using hblock
      · exact h.of_drop _

/-- What a region takes behind its run: nothing, or the catch there with its body. -/
theorem taken_places {stop : Nat} {q : IndexedStmt}
    (hq : q ∈ (followingCatch handler target (stmts.zipIdx.drop stop)).taken) :
    stop ≤ q.2 ∧ (∃ s, stmts[stop]? = some s ∧ s.isCatch = true) ∧
      ∀ j, stop < j → j ≤ q.2 → ∃ s, stmts[j]? = some s ∧ s.isCatch = false := by
  cases hget : stmts[stop]? with
  | none =>
    have hend : stmts.length ≤ stop := List.getElem?_eq_none_iff.mp hget
    rw [List.drop_eq_nil_of_le (by simpa using hend)] at hq
    cases hq
  | some s =>
    rw [drop_zipIdx_getElem?, hget] at hq
    simp only [Option.map_some, Option.toList_some, List.singleton_append, followingCatch] at hq
    cases hvar : s.catchVar? with
    | none => simp [hvar, CatchSource.taken] at hq
    | some var =>
      simp only [hvar, CatchSource.taken] at hq
      obtain ⟨hall, -, hmem⟩ :=
        takeWhile_drop_zipIdx stmts (inCatchBody handler target) (stop + 1)
      have hcatch : s.isCatch = true := by rw [Stmt.isCatch, hvar]; rfl
      rcases List.mem_cons.mp hq with rfl | hq
      · exact ⟨Nat.le_refl _, ⟨s, rfl, hcatch⟩, fun j hj hle => absurd hj (by omega)⟩
      · obtain ⟨hle, hlt, -⟩ := (hmem q).mp hq
        refine ⟨by omega, ⟨s, rfl, hcatch⟩, fun j hj hjq => ?_⟩
        obtain ⟨x, hx, hin⟩ := hall j hj (by omega)
        exact ⟨x, hx, (inCatchBody_iff.mp hin).2⟩

/-- The places of every region of the pass. -/
theorem region_places {tryBody : List IndexedStmt} {source : CatchSource}
    (h : .region target tryBody source ∈ trySteps handler targets stmts.zipIdx) :
    ∃ first stop, RegionPlaces handler targets stmts target tryBody source first stop := by
  obtain ⟨collected, p, rest, hinv, hsuffix, hmem⟩ := exists_place_of_mem_scanWith _
    (StillCollected handler targets stmts)
    (fun _ _ _ hinv => stillCollected_step _ hinv)
    ⟨List.suffix_rfl, fun d hd => Or.inl hd⟩ h
  unfold tryStep at hmem
  split at hmem
  · cases List.mem_singleton.mp hmem
  · next hunmarked =>
    rw [List.contains_iff_mem] at hunmarked
    split at hmem
    · cases List.mem_singleton.mp hmem
    · next target' hhandler =>
      obtain ⟨hrun, hstop, hbody, hwhole, hdrop⟩ := run_places hsuffix hhandler rfl
      dsimp only at hmem
      split at hmem
      · cases List.mem_singleton.mp hmem
        exact ⟨p.2, _, hunmarked, by omega, hrun, hstop, hbody, hwhole,
          by simp [CatchSource.taken], by simp [CatchSource.taken]⟩
      · next hnone =>
        cases List.mem_singleton.mp hmem
        refine ⟨p.2, _, hunmarked, by omega, hrun, hstop, hbody, hwhole, ?_, fun _ => ?_⟩
        · rw [hdrop]
          exact fun q hq => taken_places hq
        · by_contra hcollected
          rw [not_or, not_forall] at hcollected
          obtain ⟨⟨d, hd⟩, hended⟩ := hcollected
          rw [Classical.not_imp, not_not] at hd
          rcases hinv.2 d hd.1 with hkept | hgone
          · have hin : d ∈ collected.filter fun d => d.block = target :=
              List.mem_filter.mpr ⟨hkept, by simpa using hd.2⟩
            rw [collectedFor, List.getLast?_eq_none_iff] at hnone
            rw [hnone] at hin
            cases hin
          · obtain ⟨i, j, hij, hj, hi, hne⟩ := hgone p List.mem_cons_self
            exact hended ⟨i, j, hij, hj, hd.2 ▸ hi, hd.2 ▸ hne⟩

theorem keep_of_mem (h : .keep p ∈ trySteps handler targets stmts.zipIdx) :
    p.2 ∉ markedIndices handler targets stmts.zipIdx ∧ handler p.1 = none := by
  obtain ⟨collected, q, rest, -, -, hmem⟩ := exists_step_of_mem_scanWith _ (fun _ => True)
    (fun _ _ _ _ => trivial) trivial h
  unfold tryStep at hmem
  split at hmem
  · cases List.mem_singleton.mp hmem
  · next hunmarked =>
    split at hmem
    · next hhandler =>
      cases List.mem_singleton.mp hmem
      exact ⟨by simpa using hunmarked, hhandler⟩
    · dsimp only at hmem
      split at hmem <;> cases List.mem_singleton.mp hmem

/-! ## Lists whose catches lie apart -/

theorem AheadBody.upTo {b : BlockId} {c i j : Nat} (h : AheadBody handler stmts b c i)
    (hj : c < j) (hle : j ≤ i) : AheadBody handler stmts b c j :=
  ⟨h.1, h.2.caught, hj, fun k hk hkj => h.2.own k hk (hkj.trans hle)⟩

/-- A catch is not inside the body of another one. -/
theorem InBody.le_of_isCatch {b : BlockId} {c i j : Nat} (h : InBody handler stmts b c i)
    {s : Stmt} (hget : stmts[j]? = some s) (hcatch : s.isCatch = true) (hle : j ≤ i) : j ≤ c := by
  by_contra hlt
  obtain ⟨y, hy, hycatch, -⟩ := h.own j (by omega) hle
  rw [hget, Option.some.injEq] at hy
  rw [hy, hycatch] at hcatch
  cases hcatch

section Apart

variable (htargets : ∀ i b, handlerAt handler stmts i = some b → b ∈ targets)
  (hregions : RegionsApart handler stmts) (hapart : CatchesApart handler stmts)

namespace RegionPlaces

variable {tryBody : List IndexedStmt} {source : CatchSource} {first stop : Nat}
  (places : RegionPlaces handler targets stmts target tryBody source first stop)
include places

include htargets in
/-- A region that comes to a collected body began in front of its catch. -/
theorem first_lt {b : BlockId} {c i : Nat} (hahead : AheadBody handler stmts b c i)
    (hfirst : first ≤ i) : first < c := by
  by_contra hle
  obtain ⟨s, hget, -⟩ :=
    Option.bind_eq_some_iff.mp (places.run first (Nat.le_refl _) places.order)
  refine places.unmarked ((mem_markedIndices htargets
    (List.getElem?_eq_some_iff.mp hget).1).mpr ?_)
  rcases Nat.eq_or_lt_of_le (Nat.le_of_not_lt hle) with heq | hlt
  · exact Or.inl ⟨b, heq ▸ hahead.2.caught, hahead.1⟩
  · exact Or.inr ⟨b, c, hahead.upTo hlt hfirst⟩

/-- The catch behind a region that takes a statement of a body is the one of the body. -/
theorem stop_eq {b : BlockId} {c : Nat} {q : IndexedStmt} (hin : InBody handler stmts b c q.2)
    (hq : q ∈ source.taken) : stop = c := by
  obtain ⟨hstop, ⟨s, hget, hcatch⟩, hnone⟩ := places.taken q hq
  have hbehind := hin.behind
  refine Nat.le_antisymm (hin.le_of_isCatch hget hcatch hstop) ?_
  by_contra hlt
  obtain ⟨x, hx, hxcatch, -⟩ := catchAt_eq_some.mp hin.caught
  obtain ⟨y, hy, hycatch⟩ := hnone c (by omega) (by omega)
  rw [hx, Option.some.injEq] at hy
  rw [hy, hycatch] at hxcatch
  cases hxcatch

include htargets in
/-- Its handler has no catch in front of a region, or it is not the first region. -/
theorem not_first (hne : source.taken ≠ []) : ¬ (CaughtAhead handler stmts target ∧
    ∀ i j, i < j → j ≤ first → handlerAt handler stmts i = some target →
      handlerAt handler stmts j = some target) := by
  rintro ⟨hcaught, hfirst⟩
  rcases places.uncollected hne with hno | ⟨i, j, hij, hj, hi, hother⟩
  · obtain ⟨d, hd, hblock⟩ := (collected_iff_caughtAhead htargets).mpr hcaught
    exact hno d hd hblock
  · exact hother (hfirst i j hij hj hi)

end RegionPlaces

include htargets hregions in
/-- No region takes a statement of a collected body. -/
theorem not_mem_region {b : BlockId} {c i : Nat} (hahead : AheadBody handler stmts b c i)
    {tryBody : List IndexedStmt} {source : CatchSource}
    (hstep : .region target tryBody source ∈ trySteps handler targets stmts.zipIdx) :
    ∀ q ∈ tryBody ++ source.taken, q.2 ≠ i := by
  induction c using Nat.strongRecOn generalizing b i target tryBody source with
  | ind c ih =>
    rintro q hq rfl
    obtain ⟨first, stop, places⟩ := region_places hstep
    have horder := places.order
    have hbehind := hahead.2.behind
    -- the bodies of earlier catches are in no region
    have hbefore : ∀ {k}, k < c → first ≤ k → k < stop →
        ¬ ∃ b' c', AheadBody handler stmts b' c' k := by
      rintro k hk hfirst hstop ⟨b', c', hearlier⟩
      obtain ⟨x, hx, hxk⟩ := places.whole k hfirst hstop
      exact ih c' (hearlier.2.behind.trans hk) hearlier hstep x (List.mem_append_left _ hx) hxk
    rcases List.mem_append.mp hq with htry | htaken
    · -- the region began in front of the catch and runs over it
      obtain ⟨hfirst, hstop⟩ := places.body q htry
      have hlt := places.first_lt htargets hahead hfirst
      obtain ⟨k, rfl⟩ : ∃ k, c = k + 1 := ⟨c - 1, by omega⟩
      have htarget : target = b := by
        obtain ⟨s, hget, -, hown⟩ := hahead.2.own q.2 hbehind (Nat.le_refl _)
        have hrun := places.run q.2 hfirst hstop
        rw [handlerAt, hget] at hrun
        exact hown target hrun
      subst htarget
      exact hbefore (Nat.lt_succ_self k) (by omega) (by omega)
        (hregions.through target k (hahead.upTo (by omega) hbehind)
          (places.run k (by omega) (by omega)) (places.run (k + 1) (by omega) (by omega))
          (places.run (k + 2) (by omega) (by omega)))
    · -- the region ended in front of the catch of the body
      obtain rfl := places.stop_eq hahead.2 htaken
      obtain ⟨k, rfl⟩ : ∃ k, stop = k + 1 := ⟨stop - 1, by omega⟩
      rcases hregions.front b k target (hahead.upTo (by omega) hbehind)
          (places.run k (by omega) (by omega)) places.stopped with hearlier | ⟨hcaught, hrun⟩
      · exact hbefore (Nat.lt_succ_self k) (by omega) (by omega) hearlier
      · exact places.not_first htargets (List.ne_nil_of_mem htaken)
          ⟨hcaught, fun i j hij hj => hrun i j hij (by omega)⟩

include htargets hregions in
/-- The pass steps over every statement of a collected body. -/
theorem skip_of_aheadBody {b : BlockId} {c : Nat} {p : IndexedStmt} (hp : p ∈ stmts.zipIdx)
    (hahead : AheadBody handler stmts b c p.2) :
    .skip p ∈ trySteps handler targets stmts.zipIdx := by
  have hmem := hp
  rw [← trySteps_covered handler targets stmts.zipIdx] at hmem
  obtain ⟨step, hstep, hcovered⟩ := List.mem_flatMap.mp hmem
  cases step with
  | skip q =>
    cases List.mem_singleton.mp hcovered
    exact hstep
  | keep q =>
    cases List.mem_singleton.mp hcovered
    have hlength : p.2 < stmts.length := (List.getElem?_eq_some_iff.mp (mem_zipIdx.mp hp)).1
    exact absurd ((mem_markedIndices htargets hlength).mpr (Or.inr ⟨b, c, hahead⟩))
      (keep_of_mem hstep).1
  | region target tryBody source =>
    exact absurd rfl (not_mem_region htargets hregions hahead hstep p hcovered)

/-- The last body collected for a block is that of its last catch in front of a region. -/
theorem place_le_of_collectedFor {c d : CatchBlock} {b : BlockId}
    (hlast : collectedFor (collectedBlocks handler targets stmts.zipIdx) b = some d)
    (hc : c ∈ collectedBlocks handler targets stmts.zipIdx) (hblock : c.block = b) :
    c.place ≤ d.place := by
  have hmem : c ∈ (collectedBlocks handler targets stmts.zipIdx).filter fun d => d.block = b :=
    List.mem_filter.mpr ⟨hc, by simpa using hblock⟩
  have hsorted : ((collectedBlocks handler targets stmts.zipIdx).filter
      fun d => d.block = b).Pairwise fun c d => c.place < d.place :=
    ((catchBlocks_sorted stmts).filter _).filter _
  rw [collectedFor] at hlast
  rw [← List.dropLast_append_getLast? d hlast] at hmem hsorted
  rcases List.mem_append.mp hmem with hfirst | hmem
  · exact Nat.le_of_lt ((List.pairwise_append.mp hsorted).2.2 c hfirst d (by simp))
  · rw [List.mem_singleton.mp hmem]

end Apart

end Places

/-! ## Conservation -/

theorem mem_values_of_handlerAt {handlers : OrdMap BlockId BlockId} {stmts : List Stmt} {i : Nat}
    {b : BlockId} (h : handlerAt (stmtHandler handlers OrdSet.empty) stmts i = some b) :
    b ∈ handlers.values := by
  obtain ⟨s, -, hs⟩ := Option.bind_eq_some_iff.mp h
  obtain ⟨hs, -⟩ := Option.filter_eq_some_iff.mp hs
  obtain ⟨block, -, hget⟩ := Option.bind_eq_some_iff.mp hs
  exact List.mem_map.mpr ⟨(block, b), OrdMap.get?_eq_some_iff.mp hget, rfl⟩

/-- Conversely, where regions keep away and no catch is protected itself, the catches lie apart if
the statements are conserved. -/
theorem catchesApart_of_recovers {handlers : OrdMap BlockId BlockId} {stmts : List Stmt}
    (hregions : RegionsApart (stmtHandler handlers OrdSet.empty) stmts)
    (hcatches : ∀ s ∈ stmts, s.isCatch = true → stmtHandler handlers OrdSet.empty s = none)
    (h : RecoversTryCatch handlers stmts) :
    CatchesApart (stmtHandler handlers OrdSet.empty) stmts := by
  have htargets := fun i b => @mem_values_of_handlerAt handlers stmts i b
  have hagree : ∀ b c i, AheadBody (stmtHandler handlers OrdSet.empty) stmts b c i →
      ∃ d ∈ catchBlocks (stmtHandler handlers OrdSet.empty) stmts.zipIdx,
        d.block = b ∧ d.place = c ∧
        collectedFor (collectedBlocks (stmtHandler handlers OrdSet.empty) handlers.values
          stmts.zipIdx) b = some d ∧
        b ∈ (topSteps handlers stmts).filterMap TryStep.target? := by
    intro b c i hahead
    obtain ⟨s, hget, -⟩ := hahead.2.own i hahead.2.behind (Nat.le_refl i)
    have hp : (s, i) ∈ stmts.zipIdx := mem_zipIdx.mpr hget
    obtain ⟨d, hd, rfl, rfl⟩ :=
      @exists_catchBlock (stmtHandler handlers OrdSet.empty) _ _ _ hahead.2.caught
    have hboth := ((recoversTryCatch_iff_passesAgree handlers stmts).mp h d
      ((mem_markedBlocks htargets).mpr ⟨hd, hahead.1⟩) (s, i)
      (((catchBlock_at hd).2.2 (s, i)).mpr ⟨hahead.2, hp⟩)).mp
        (skip_of_aheadBody htargets hregions hp hahead)
    exact ⟨d, hd, rfl, rfl, hboth⟩
  refine ⟨hregions, fun b c i hahead => ?_, fun b c i hahead => ?_⟩
  · obtain ⟨d, hd, rfl, rfl, hlast, -⟩ := hagree b c i hahead
    obtain ⟨-, htried⟩ := (mem_collectedBlocks htargets).mp (collectedFor_mem hlast).1
    refine ⟨htried, fun e hlt hcaught hetried => ?_⟩
    obtain ⟨x, hx, hblock, rfl⟩ :=
      @exists_catchBlock (stmtHandler handlers OrdSet.empty) _ _ _ hcaught
    have hmem := (mem_collectedBlocks htargets).mpr ⟨hx, hblock ▸ hetried⟩
    exact absurd (place_le_of_collectedFor hlast hmem hblock) (by omega)
  · obtain ⟨-, -, -, -, -, htarget⟩ := hagree b c i hahead
    obtain ⟨step, hstep, htarget⟩ := List.mem_filterMap.mp htarget
    cases step with
    | region target tryBody source =>
      cases htarget
      obtain ⟨first, stop, places⟩ := region_places hstep
      have hrun := places.run first (Nat.le_refl first) places.order
      obtain ⟨s, hget, hs⟩ := Option.bind_eq_some_iff.mp hrun
      refine ⟨first, s, hget, ?_, hs, fun b' c' hbody => places.unmarked
        ((mem_markedIndices htargets (List.getElem?_eq_some_iff.mp hget).1).mpr
          (Or.inr ⟨b', c', hbody⟩))⟩
      by_contra hcatch
      rw [hcatches s (List.mem_of_getElem? hget) (by simpa using hcatch)] at hs
      cases hs
    | _ => cases htarget

/-! ## Lists -/

namespace CatchLists

def stmt (block : BlockId) (name : String) : Stmt :=
  .assign "r0_0" ⟨name, some ⟨0, 0⟩, [], ⟨0, 0, name, []⟩⟩ (some block)

/-- Blocks 3 and 5 are protected, by 4 and 6. -/
def handlers : OrdMap BlockId BlockId := (OrdMap.empty.insert 3 4).insert 5 6

end CatchLists

end Hermes.Structure
