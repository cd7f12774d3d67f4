-- SUMMARY: Variables by their text: which texts are read as a variable, counted as its uses and resolved to its value.
import DroidsawHermes.Decompile.Expr
import DroidsawHermes.Lib.Decimal
import DroidsawHermes.Structure.Verify

/-!
# The text of variables

`VarId::from_display_str` of `decompile/ssa.rs`, with the two places of `decompile/structure.rs`
that read variables back from text: `count_var_uses` and `resolve_var`. A register or a version
with a plus sign or a leading zero is read, too.
-/

namespace Hermes.Structure

open Decompile

/-! ## The source -/

/-- `u32::from_str`. -/
def u32FromStr (cs : List Char) : Option Nat := Decimal.parse (2 ^ 32) cs

/-- `split_once`. -/
def splitOnce (d : Char) : List Char → Option (List Char × List Char)
  | [] => none
  | c :: cs => if c = d then some ([], cs) else (splitOnce d cs).map fun p => (c :: p.1, p.2)

/-- `VarId::from_display_str`. -/
def fromDisplayStr (s : String) : Option VarId :=
  match s.toList with
  | 'r' :: rest => do
    let (reg, ver) ← splitOnce '_' rest
    return ⟨← u32FromStr reg, ← u32FromStr ver⟩
  | _ => none

/-- A variable that a statement mentions, by itself or by its text. -/
abbrev Mention := VarId ⊕ String

/-- The variable that is counted. -/
def Mention.bumped : Mention → Option VarId
  | .inl v => some v
  | .inr s => fromDisplayStr s

def Mention.text : Mention → String
  | .inl v => v.display
  | .inr s => s

def DestructurePath.computedKeys : DestructurePath → List String
  | .leaf key => keyNames key
  | .nested key inner => keyNames key ++ inner.computedKeys
where
  keyNames : DestructureKey → List String
    | .static _ => []
    | .computed var => [var]

def Stmt.variables : Stmt → List VarId
  | .assign _ o _ | .op o => o.reads
  | .return v => v.toList
  | .throw v => [v]
  | .ifElse cond _ _ => cond.reads
  | .while cond _ => cond.toList.flatMap Condition.reads
  | .forIn key obj _ => [key, obj]
  | .switch discriminant _ _ => [discriminant]
  | _ => []

def Stmt.texts : Stmt → List String
  | .switch _ cases _ => cases.map Prod.fst
  | .destructure object bindings => object :: bindings.map Prod.snd
  | .destructureWithDefault object targetReceiver _ _ path =>
    object :: targetReceiver :: path.computedKeys
  | .import name _ => [name]
  | .exportDefault value | .exportNamed _ value => [value]
  | .phiAssign _ src => [src]
  | .class _ parent methods staticFields =>
    parent.toList ++ methods.map Prod.snd ++ staticFields.map StaticField.value
  | _ => []

/-- What `count_var_uses` looks at in a statement itself. -/
def Stmt.mentions (stmt : Stmt) : List Mention := stmt.variables.map .inl ++ stmt.texts.map .inr

def countMentions (mentions : List Mention) (v : VarId) : Nat :=
  mentions.countP fun m => m.bumped = some v

def countVarUses (stmts : List Stmt) : VarId → Nat :=
  countMentions ((allOf stmts).flatMap Stmt.mentions)

def resolveVar (doubleText : UInt64 → String) (inlineMap : VarId → Option Expr) (name : String) :
    String :=
  replaceQuestionMarks <|
    match (fromDisplayStr name).bind inlineMap with
    | some expr => (expr.substitute doubleText inlineMap).display doubleText
    | none => name

/-! ## Exact texts -/

/-- A text is read as a variable where it is the text of that variable. -/
structure ReadExactly (s : String) : Prop where
  parsed : ∀ v, fromDisplayStr s = some v → s = v.display
  counted : ∀ before after v,
    countMentions (before ++ .inr s :: after) v ≠ countMentions (before ++ after) v → s = v.display
  resolved : ∀ doubleText inlineMap,
    resolveVar doubleText inlineMap s ≠ replaceQuestionMarks s →
      ∃ v, s = v.display ∧ (inlineMap v).isSome

theorem readExactly_of_parsed {s : String} (h : ∀ v, fromDisplayStr s = some v → s = v.display) :
    ReadExactly s := by
  refine ⟨h, fun before after v hcount => h v ?_, fun doubleText inlineMap hne => ?_⟩
  · by_contra hno
    refine hcount ?_
    have hbumped : (Mention.bumped (.inr s) = some v) = False := eq_false hno
    simp only [countMentions, List.countP_append, List.countP_cons, hbumped, decide_false,
      Bool.false_eq_true, if_false, Nat.add_zero]
  · unfold resolveVar at hne
    cases hfind : (fromDisplayStr s).bind inlineMap with
    | none =>
      rw [hfind] at hne
      exact absurd rfl hne
    | some e =>
      obtain ⟨v, hv, he⟩ := Option.bind_eq_some_iff.mp hfind
      exact ⟨v, h v hv, Option.isSome_of_eq_some he⟩

/-! ## Reading -/

theorem splitOnce_eq_some_iff {d : Char} {cs reg ver : List Char} :
    splitOnce d cs = some (reg, ver) ↔ cs = reg ++ d :: ver ∧ d ∉ reg := by
  induction cs generalizing reg with
  | nil => simp [splitOnce]
  | cons c cs ih =>
    rw [splitOnce]
    split
    · next hc =>
      subst hc
      constructor
      · rintro ⟨⟩
        exact ⟨rfl, by simp⟩
      · rintro ⟨heq, hmem⟩
        cases reg with
        | nil => rw [(List.cons.inj heq).2]
        | cons x reg =>
          rw [(List.cons.inj heq).1] at hmem
          exact absurd List.mem_cons_self hmem
    · next hc =>
      simp only [Option.map_eq_some_iff, Prod.mk.injEq, Prod.exists]
      constructor
      · rintro ⟨reg', ver', hsplit, rfl, rfl⟩
        obtain ⟨rfl, hmem⟩ := ih.mp hsplit
        exact ⟨rfl, by simp [hmem, Ne.symm hc]⟩
      · rintro ⟨heq, hmem⟩
        cases reg with
        | nil => exact absurd (List.cons.inj heq).1 hc
        | cons x reg =>
          obtain ⟨rfl, htail⟩ := List.cons.inj heq
          exact ⟨reg, ver, ih.mpr ⟨htail, fun hreg => hmem (List.mem_cons_of_mem _ hreg)⟩, rfl, rfl⟩

/-- What is read has a register and a version on both sides of the first underscore. -/
theorem fromDisplayStr_eq_some_iff {s : String} {v : VarId} :
    fromDisplayStr s = some v ↔ ∃ reg ver, s.toList = 'r' :: (reg ++ '_' :: ver) ∧ '_' ∉ reg ∧
      u32FromStr reg = some v.reg ∧ u32FromStr ver = some v.ver := by
  unfold fromDisplayStr
  split
  · next rest hs =>
    simp only [Option.bind_eq_bind, Option.bind_eq_some_iff, Prod.exists, Option.pure_def,
      Option.some.injEq, splitOnce_eq_some_iff, hs, List.cons.injEq, true_and]
    constructor
    · rintro ⟨reg, ver, ⟨hrest, hmem⟩, x, hx, y, hy, rfl⟩
      exact ⟨reg, ver, hrest, hmem, hx, hy⟩
    · rintro ⟨reg, ver, hrest, hmem, hx, hy⟩
      exact ⟨reg, ver, ⟨hrest, hmem⟩, v.reg, hx, v.ver, hy, rfl⟩
  · next hno =>
    refine iff_of_false (by simp) ?_
    rintro ⟨reg, ver, hs, -⟩
    exact hno _ hs

theorem toList_display (v : VarId) :
    v.display.toList = 'r' :: (Nat.toDigits 10 v.reg ++ '_' :: Nat.toDigits 10 v.ver) := by
  simp [VarId.display, Nat.repr]

theorem underscore_not_mem_toDigits (n : Nat) : '_' ∉ Nat.toDigits 10 n := by
  rw [← Nat.toList_repr]
  exact underscore_not_mem_repr n

/-- The text of a variable is read as it. -/
theorem fromDisplayStr_display {v : VarId} (hreg : v.reg < 2 ^ 32) (hver : v.ver < 2 ^ 32) :
    fromDisplayStr v.display = some v :=
  fromDisplayStr_eq_some_iff.mpr ⟨_, _, toList_display v, underscore_not_mem_toDigits v.reg,
    Decimal.parse_toDigits hreg, Decimal.parse_toDigits hver⟩

/-- A text that is read is that of its variable when neither of its numbers is padded. -/
theorem eq_display_iff {s : String} {v : VarId} {reg ver : List Char}
    (hs : s.toList = 'r' :: (reg ++ '_' :: ver)) (hmem : '_' ∉ reg)
    (hreg : u32FromStr reg = some v.reg) (hver : u32FromStr ver = some v.ver) :
    s = v.display ↔ ¬ Decimal.Padded reg ∧ ¬ Decimal.Padded ver := by
  have hbound : 0 < 2 ^ 32 := by decide
  rw [← Decimal.eq_toDigits_iff hbound hreg, ← Decimal.eq_toDigits_iff hbound hver,
    ← String.toList_inj, hs, toList_display, List.cons.injEq, and_iff_right rfl]
  constructor
  · intro heq
    have hsplit := splitOnce_eq_some_iff.mpr ⟨heq, underscore_not_mem_toDigits v.reg⟩
    rw [splitOnce_eq_some_iff.mpr ⟨rfl, hmem⟩] at hsplit
    exact Prod.mk.inj (Option.some.inj hsplit)
  · rintro ⟨hreg', hver'⟩
    rw [← hreg', ← hver']

/-- Uses are counted by name where the texts are read exactly. -/
theorem countVarUses_eq {stmts : List Stmt}
    (h : ∀ stmt ∈ allOf stmts, ∀ s ∈ stmt.texts, ReadExactly s) {v : VarId} (hreg : v.reg < 2 ^ 32)
    (hver : v.ver < 2 ^ 32) :
    countVarUses stmts v =
      ((allOf stmts).flatMap Stmt.mentions).countP fun m => m.text = v.display := by
  refine List.countP_congr fun m hm => ?_
  rw [decide_eq_true_eq, decide_eq_true_eq]
  obtain ⟨stmt, hstmt, hm⟩ := List.mem_flatMap.mp hm
  rcases List.mem_append.mp hm with hvar | htext
  · obtain ⟨w, -, rfl⟩ := List.mem_map.mp hvar
    rw [Mention.bumped, Mention.text, Option.some.injEq, VarId.display_injective.eq_iff]
  · obtain ⟨s, hs, rfl⟩ := List.mem_map.mp htext
    constructor
    · exact (h stmt hstmt s hs).parsed v
    · intro heq
      rw [Mention.text] at heq
      rw [Mention.bumped, heq, fromDisplayStr_display hreg hver]

/-- Every variable of 32-bit numbers is read back from its text, a text is read exactly when it
has no padded number, and with such texts the uses in statements are those of the name. -/
theorem fromDisplayStr_exact (reg ver : UInt32) (s : String) (stmts : List Stmt) :
    fromDisplayStr (VarId.display ⟨reg.toNat, ver.toNat⟩) = some ⟨reg.toNat, ver.toNat⟩ ∧
      (ReadExactly s ↔ ∀ reg ver, s.toList = 'r' :: (reg ++ '_' :: ver) → '_' ∉ reg →
        (u32FromStr reg).isSome → (u32FromStr ver).isSome →
          ¬ Decimal.Padded reg ∧ ¬ Decimal.Padded ver) ∧
      ((∀ stmt ∈ allOf stmts, ∀ s ∈ stmt.texts, ReadExactly s) →
        countVarUses stmts ⟨reg.toNat, ver.toNat⟩ = ((allOf stmts).flatMap Stmt.mentions).countP
          fun m => m.text = VarId.display ⟨reg.toNat, ver.toNat⟩) := by
  refine ⟨fromDisplayStr_display reg.toNat_lt ver.toNat_lt, ⟨?_, ?_⟩,
    fun h => countVarUses_eq h reg.toNat_lt ver.toNat_lt⟩
  · intro h reg ver hs hmem hreg hver
    obtain ⟨x, hx⟩ := Option.isSome_iff_exists.mp hreg
    obtain ⟨y, hy⟩ := Option.isSome_iff_exists.mp hver
    have hread : fromDisplayStr s = some ⟨x, y⟩ :=
      fromDisplayStr_eq_some_iff.mpr ⟨reg, ver, hs, hmem, hx, hy⟩
    exact (eq_display_iff (v := ⟨x, y⟩) hs hmem hx hy).mp (h.parsed _ hread)
  · intro h
    refine readExactly_of_parsed fun v hv => ?_
    obtain ⟨reg, ver, hs, hmem, hreg, hver⟩ := fromDisplayStr_eq_some_iff.mp hv
    exact (eq_display_iff hs hmem hreg hver).mpr (h reg ver hs hmem
      (Option.isSome_of_eq_some hreg) (Option.isSome_of_eq_some hver))

/-- A version with a leading zero is read as the one without it. -/
theorem paddedVersion_not_readExactly : ¬ ReadExactly "r1_02" := by
  intro h
  have heq : "r1_02" = VarId.display ⟨1, 2⟩ := h.parsed ⟨1, 2⟩ (by decide)
  revert heq
  decide

end Hermes.Structure
