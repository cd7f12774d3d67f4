-- SUMMARY: When constant folding loads the numbers that its operations compute, in every run of the pass.
import DroidsawHermes.Decompile.Simplify
import DroidsawHermes.Lib.Rounding

/-!
# Folded constants

The operations of JavaScript on integers, beside what `constant_folding` of
`decompile/optimize.rs` loads in their place. The loads are wrong for the results that are
negative zeros, and the variables of phis are kept out of the constants only at first.
-/

namespace Hermes.Decompile

open Binary64

/-! ## JavaScript -/

def IsInt32 (n : Int) : Prop := i32Min ≤ n ∧ n ≤ i32Max

instance (n : Int) : Decidable (IsInt32 n) := inferInstanceAs (Decidable (_ ∧ _))

def toInt32 (n : Int) : Int := n.bmod (2 ^ 32)

def toUint32 (n : Int) : Int := n % 2 ^ 32

/-- Bit `i` in two's complement. -/
def HasBit (n : Int) (i : Nat) : Prop := n / 2 ^ i % 2 = 1

/-- The result of a numeric operation on integers. -/
def jsNumeric (name : String) (l r : Int) : Option Float :=
  match name with
  | "AddN" => some (ofInt l + ofInt r)
  | "Sub" | "SubN" => some (ofInt l - ofInt r)
  | "Mul" | "MulN" => some (ofInt l * ofInt r)
  | "Div" | "DivN" => some (ofInt l / ofInt r)
  | "Mod" => some (if r = 0 then ofInt 0 / ofInt 0 else remainder l r)
  | _ => none

/-- `n` is the result of a bitwise operation on integers. -/
def JsBitwise (name : String) (l r n : Int) : Prop :=
  let scale := 2 ^ (toUint32 r % 32).toNat
  match name with
  | "BitAnd" => IsInt32 n ∧ ∀ i < 32, HasBit n i ↔ HasBit l i ∧ HasBit r i
  | "BitOr" => IsInt32 n ∧ ∀ i < 32, HasBit n i ↔ HasBit l i ∨ HasBit r i
  | "BitXor" => IsInt32 n ∧ ∀ i < 32, HasBit n i ↔ ¬(HasBit l i ↔ HasBit r i)
  | "LShift" => n = toInt32 (toInt32 l * scale)
  | "RShift" => n = toInt32 l / scale
  | "URshift" => n = toUint32 l / scale
  | _ => False

def bitwiseOps : List String := ["BitAnd", "BitOr", "BitXor", "LShift", "RShift", "URshift"]

def numericOps : List String :=
  ["AddN", "Sub", "SubN", "Mul", "MulN", "Div", "DivN", "Mod"]

/-! ## Steps -/

/-- The constants before each operation, in the order of the pass. -/
def foldSteps : Consts → List SsaOp → List (Consts × SsaOp)
  | _, [] => []
  | consts, op :: ops => (consts, op) :: foldSteps (foldOp consts op).2 ops

def SsaFunction.foldSteps (s : SsaFunction) : List (Consts × SsaOp) :=
  Decompile.foldSteps s.loadedConsts s.ops

theorem SsaFunction.snd_foldSteps (s : SsaFunction) : s.foldSteps.map Prod.snd = s.ops := by
  have hrun : ∀ (consts : Consts) (ops : List SsaOp),
      (Decompile.foldSteps consts ops).map Prod.snd = ops := by
    intro consts ops
    induction ops generalizing consts with
    | nil => rfl
    | cons op ops ih => rw [Decompile.foldSteps, List.map_cons, ih]
  exact hrun s.loadedConsts s.ops

/-- The integers that an operation has as its operands. -/
def SsaOp.intOperands (op : SsaOp) (consts : Consts) : Option (Int × Int) :=
  match op.operands[1]?, op.operands[2]? with
  | some (SsaOperand.var lhs), some (SsaOperand.var rhs) => do
    return (← consts.vals lhs, ← consts.vals rhs)
  | _, _ => none

def SsaOp.doubleOperands (op : SsaOp) (consts : Consts) : Option (UInt64 × UInt64) :=
  match op.operands[1]?, op.operands[2]? with
  | some (SsaOperand.var lhs), some (SsaOperand.var rhs) => do
    return (← consts.doubles lhs, ← consts.doubles rhs)
  | _, _ => none

/-- A step by what the operation has as its operands. -/
def SsaOp.folded (op : SsaOp) (consts : Consts) : Option FoldedConst :=
  ((op.intOperands consts).bind fun e => foldInts op.name e.1 e.2).or
    ((op.doubleOperands consts).bind fun e => foldDoubles op.name e.1 e.2)

theorem foldDoubles_loadConst (op : SsaOp) (c : FoldedConst) (lv rv : UInt64) :
    foldDoubles (op.loadConst c).name lv rv = none := by
  cases c <;> rfl

/-- A step loads one constant and records it, or it does nothing. -/
theorem foldOp_eq {consts : Consts} {op : SsaOp} {dst : VarId} (hdst : op.dst = some dst) :
    foldOp consts op = op.foldWith consts dst (op.folded consts) := by
  unfold foldOp SsaOp.folded SsaOp.intOperands SsaOp.doubleOperands
  rw [hdst]
  split
  · next dst' lhs rhs hdst' hl hr =>
    obtain rfl := Option.some.inj hdst'
    have hints : ((do return (← consts.vals lhs, ← consts.vals rhs) : Option (Int × Int)).bind
        fun e => foldInts op.name e.1 e.2) =
          (do foldInts op.name (← consts.vals lhs) (← consts.vals rhs)) := by
      cases consts.vals lhs <;> cases consts.vals rhs <;> rfl
    have hdoubles : ((do return (← consts.doubles lhs, ← consts.doubles rhs) :
        Option (UInt64 × UInt64)).bind fun e => foldDoubles op.name e.1 e.2) =
          (do foldDoubles op.name (← consts.doubles lhs) (← consts.doubles rhs)) := by
      cases consts.doubles lhs <;> cases consts.doubles rhs <;> rfl
    simp only [hl, hr, hints, hdoubles, SsaOp.foldIntsAt]
    generalize (do foldInts op.name (← consts.vals lhs) (← consts.vals rhs)) = r
    cases r with
    | none => rfl
    | some c =>
      -- The name of the load is not folded again.
      have hagain : ∀ l r : Option UInt64,
          (do foldDoubles (op.loadConst c).name (← l) (← r)) = none := by
        intro l r
        cases l <;> cases r <;> first | rfl | exact foldDoubles_loadConst op c _ _
      simp only [SsaOp.foldWith, SsaOp.foldDoublesAt, hagain, Option.some_or]
  · next h =>
    split
    · next lhs rhs hl hr => exact absurd hr (h dst lhs rhs rfl hl)
    · rfl

theorem foldOp_of_dst_none {consts : Consts} {op : SsaOp} (hdst : op.dst = none) :
    foldOp consts op = (op, consts) := by
  simp [foldOp, hdst]

/-! ## What a step has to do -/

/-- A constant is the result of an operation on integers. -/
def FoldedConst.IsResult (name : String) (l r : Int) : FoldedConst → Prop
  | .int n => JsBitwise name l r n ∨ ∃ x, jsNumeric name l r = some x ∧ number x = number (ofInt n)
  | .double bits =>
    name ∈ bitwiseOps → ∃ n, JsBitwise name l r n ∧ number (.ofBits bits) = number (ofInt n)

/-- No constant is known for a variable. -/
def Consts.Unknown (consts : Consts) (v : VarId) : Prop :=
  consts.vals v = none ∧ consts.doubles v = none

structure StepRight (phiVars : List VarId) (consts : Consts) (op : SsaOp) : Prop where
  /-- The loaded constant is the result of the operation. -/
  result : ∀ l r c, op.intOperands consts = some (l, r) → op.name ∈ bitwiseOps ++ numericOps →
    (foldOp consts op).1 = op.loadConst c → c.IsResult op.name l r
  /-- The constant recorded for later folds is the loaded one. -/
  recorded : ∀ dst c, op.dst = some dst → op.name ∈ bitwiseOps ++ numericOps →
    (foldOp consts op).1 = op.loadConst c → (foldOp consts op).2 = consts.insert dst c
  /-- The variables of phis are not folded from. -/
  unfolded : ∀ v ∈ phiVars, op.operands[1]? = some (.var v) ∨ op.operands[2]? = some (.var v) →
    (foldOp consts op).1 = op
  /-- The variables of phis are no constants. -/
  unknown : ∀ v ∈ phiVars, consts.Unknown v ∧ (foldOp consts op).2.Unknown v

/-- In every step of the pass the constants are right. -/
def SsaFunction.FoldsRight (s : SsaFunction) : Prop :=
  ∀ e ∈ s.foldSteps, StepRight s.phiVars e.1 e.2

/-! ## When a step does it -/

/-- The result of the operation is a negative zero. -/
def NegZeroResult (name : String) (l r : Int) : Prop :=
  name ∈ ["Mul", "MulN"] ∧ (l = 0 ∧ r < 0 ∨ l < 0 ∧ r = 0) ∨
    name ∈ ["Div", "DivN"] ∧ l = 0 ∧ r < 0 ∨
    name = "Mod" ∧ l < 0 ∧ r ≠ 0 ∧ l.tmod r = 0

/-- The operation is folded. -/
def SsaOp.Folds (op : SsaOp) (consts : Consts) : Prop :=
  (∃ l r, op.intOperands consts = some (l, r) ∧ op.name ∈ bitwiseOps ++ numericOps ∧
      (r = 0 → op.name ∉ ["Div", "DivN", "Mod"])) ∨
    (op.doubleOperands consts).isSome ∧
      op.name ∈ ["Add", "AddN", "Sub", "SubN", "Mul", "MulN", "Div", "DivN"]

/-- The operation is not folded to a negative zero, and not where a phi has its variable. -/
def StepMeets (phiVars : List VarId) (consts : Consts) (op : SsaOp) : Prop :=
  ∀ dst, op.dst = some dst →
    (∀ l r, op.intOperands consts = some (l, r) → ¬ NegZeroResult op.name l r) ∧
      (dst ∈ phiVars → ¬ op.Folds consts)

/-! ### Bitwise operations -/

theorem hasBit_congr {a b : Int} {i : Nat} (h : a % 2 ^ 32 = b % 2 ^ 32) (hi : i < 32) :
    HasBit a i ↔ HasBit b i := by
  have hdiv : ∀ n : Int, n / 2 ^ i % 2 = n % 2 ^ 32 / 2 ^ i % 2 := by
    intro n
    obtain ⟨k, hk⟩ : ∃ k, 32 = i + 1 + k := ⟨31 - i, by omega⟩
    have hpow : (2 : Int) ^ 32 = 2 ^ i * (2 * 2 ^ k) := by
      rw [hk, pow_add, pow_succ]
      ring
    have hsplit : n / 2 ^ i = n % 2 ^ 32 / 2 ^ i + 2 * 2 ^ k * (n / 2 ^ 32) := by
      conv_lhs => rw [← Int.emod_add_mul_ediv n (2 ^ 32), hpow, Int.mul_assoc]
      rw [Int.add_mul_ediv_left _ _ (by positivity), ← hpow]
    rw [hsplit, Int.mul_assoc, Int.add_mul_emod_self_left]
  rw [HasBit, HasBit, hdiv a, hdiv b, h]

theorem hasBit_toNat (x : BitVec 32) (i : Nat) : HasBit x.toNat i ↔ x.getLsbD i = true := by
  rw [BitVec.getLsbD, Nat.testBit_eq_decide_div_mod_eq, decide_eq_true_eq, HasBit]
  norm_cast

theorem hasBit_toInt (x : BitVec 32) {i : Nat} (hi : i < 32) :
    HasBit x.toInt i ↔ x.getLsbD i = true := by
  rw [← hasBit_toNat]
  refine hasBit_congr ?_ hi
  rw [BitVec.toInt_eq_toNat_bmod]
  exact Int.bmod_emod

theorem hasBit_ofInt (n : Int) {i : Nat} (hi : i < 32) :
    HasBit n i ↔ (BitVec.ofInt 32 n).getLsbD i = true := by
  rw [← hasBit_toInt _ hi]
  refine hasBit_congr ?_ hi
  rw [BitVec.toInt_ofInt]
  exact Int.bmod_emod.symm

theorem isInt32_toInt (x : BitVec 32) : IsInt32 x.toInt := by
  have hlt := x.toInt_lt
  have hle := x.le_toInt
  simp only [IsInt32, i32Min, i32Max]
  omega

theorem toInt_ofInt_eq (n : Int) : (BitVec.ofInt 32 n).toInt = toInt32 n := BitVec.toInt_ofInt n

theorem toNat_ofInt_eq (n : Int) : ((BitVec.ofInt 32 n).toNat : Int) = toUint32 n := by
  rw [BitVec.toNat_ofInt]
  exact Int.toNat_of_nonneg (Int.emod_nonneg _ (by decide))

theorem emod_toInt32 (n : Int) : toInt32 n % 2 ^ 32 = n % 2 ^ 32 := Int.bmod_emod

theorem emod_toUint32 (n : Int) : toUint32 n % 2 ^ 32 = n % 2 ^ 32 := Int.emod_emod n _

theorem toInt32_congr {a b : Int} (h : a % 2 ^ 32 = b % 2 ^ 32) : toInt32 a = toInt32 b := by
  have hdef : ∀ n : Int, toInt32 n = if n % 2 ^ 32 < 2 ^ 31 then n % 2 ^ 32 else n % 2 ^ 32 - 2 ^ 32 :=
    fun _ => rfl
  rw [hdef, hdef, h]

/-- The bitwise operations compute what those of JavaScript do. -/
theorem jsBitwise_of_bitwiseResult {name : String} {l r n : Int}
    (h : bitwiseResult name l r = some n) : JsBitwise name l r n := by
  have hshift : (toUint32 r % 32).toNat = (r % 32).toNat := by
    rw [toUint32]
    omega
  simp only [bitwiseResult] at h
  simp only [JsBitwise, hshift]
  generalize (r % 32).toNat = shift at h
  split at h <;> simp only [Option.some.injEq, reduceCtorEq] at h <;> subst h
  · refine ⟨isInt32_toInt _, fun i hi => ?_⟩
    rw [hasBit_toInt _ hi, hasBit_ofInt l hi, hasBit_ofInt r hi, BitVec.getLsbD_and,
      Bool.and_eq_true]
  · refine ⟨isInt32_toInt _, fun i hi => ?_⟩
    rw [hasBit_toInt _ hi, hasBit_ofInt l hi, hasBit_ofInt r hi, BitVec.getLsbD_or,
      Bool.or_eq_true]
  · refine ⟨isInt32_toInt _, fun i hi => ?_⟩
    rw [hasBit_toInt _ hi, hasBit_ofInt l hi, hasBit_ofInt r hi, BitVec.getLsbD_xor]
    cases (BitVec.ofInt 32 l).getLsbD i <;> cases (BitVec.ofInt 32 r).getLsbD i <;> simp
  · have hnat : (((BitVec.ofInt 32 l).toNat <<< shift : Nat) : Int) = toUint32 l * 2 ^ shift := by
      rw [Nat.shiftLeft_eq, ← toNat_ofInt_eq]
      norm_cast
    rw [BitVec.toInt_shiftLeft, hnat]
    refine toInt32_congr ?_
    rw [Int.mul_emod, emod_toUint32, ← emod_toInt32 l, ← Int.mul_emod]
  · rw [BitVec.toInt_sshiftRight, toInt_ofInt_eq, Int.shiftRight_eq_div_pow]
    norm_cast
  · rw [BitVec.toNat_ushiftRight, Nat.shiftRight_eq_div_pow, ← toNat_ofInt_eq]
    norm_cast

/-! ### Numeric operations -/

theorem IsInt32.natAbs_le {n : Int} (h : IsInt32 n) : n.natAbs ≤ 2 ^ 31 := by
  simp only [IsInt32, i32Min, i32Max] at h
  omega

/-- A numeric operation that is folded has the number that JavaScript gives it, a negative zero
for the named operands. -/
theorem numericResult_spec {name : String} {l r : Int} {val : Float} (hl : IsInt32 l)
    (hr : IsInt32 r) (h : numericResult name l r = some val) :
    jsNumeric name l r = some val ∧
      (number val = .zero .negative ↔ NegZeroResult name l r) := by
  simp only [numericResult] at h
  split at h
  · obtain rfl := Option.some.inj h
    exact ⟨rfl, iff_of_false (number_add_ofInt_ne hl.natAbs_le hr.natAbs_le) (by simp [NegZeroResult])⟩
  · obtain rfl := Option.some.inj h
    exact ⟨rfl, iff_of_false (number_sub_ofInt_ne hl.natAbs_le hr.natAbs_le) (by simp [NegZeroResult])⟩
  · obtain rfl := Option.some.inj h
    exact ⟨rfl, iff_of_false (number_sub_ofInt_ne hl.natAbs_le hr.natAbs_le) (by simp [NegZeroResult])⟩
  · obtain rfl := Option.some.inj h
    refine ⟨rfl, ?_⟩
    rw [number_mul_ofInt_eq_iff hl.natAbs_le hr.natAbs_le]
    simp [NegZeroResult]
  · obtain rfl := Option.some.inj h
    refine ⟨rfl, ?_⟩
    rw [number_mul_ofInt_eq_iff hl.natAbs_le hr.natAbs_le]
    simp [NegZeroResult]
  · split at h
    · next hr0 =>
      obtain rfl := Option.some.inj h
      refine ⟨rfl, ?_⟩
      rw [number_div_ofInt_eq_iff hl.natAbs_le hr.natAbs_le hr0]
      simp [NegZeroResult]
    · cases h
  · split at h
    · next hr0 =>
      obtain rfl := Option.some.inj h
      refine ⟨rfl, ?_⟩
      rw [number_div_ofInt_eq_iff hl.natAbs_le hr.natAbs_le hr0]
      simp [NegZeroResult]
    · cases h
  · split at h
    · next hr0 =>
      obtain rfl := Option.some.inj h
      refine ⟨by rw [jsNumeric, if_neg hr0], ?_⟩
      rw [number_remainder_eq_iff hl.natAbs_le]
      simp [NegZeroResult, hr0]
    · cases h
  · cases h

theorem mem_bitwiseOps_of_jsBitwise {name : String} {l r n : Int} (h : JsBitwise name l r n) :
    name ∈ bitwiseOps := by
  simp only [JsBitwise] at h
  split at h <;> first | simp [bitwiseOps]; done | exact h.elim

theorem bitwiseResult_isSome (name : String) (l r : Int) :
    (bitwiseResult name l r).isSome ↔ name ∈ bitwiseOps := by
  simp only [bitwiseResult]
  split <;> simp_all [bitwiseOps]

theorem numericResult_isSome (name : String) (l r : Int) :
    (numericResult name l r).isSome ↔
      name ∈ numericOps ∧ (r = 0 → name ∉ ["Div", "DivN", "Mod"]) := by
  simp only [numericResult]
  split <;> simp_all [numericOps]

theorem natAbs_lt_of_bitwiseResult {name : String} {l r n : Int}
    (h : bitwiseResult name l r = some n) : n.natAbs < 2 ^ 32 := by
  have hsigned : ∀ x : BitVec 32, x.toInt.natAbs < 2 ^ 32 := by
    intro x
    have hx := (isInt32_toInt x).natAbs_le
    omega
  simp only [bitwiseResult] at h
  split at h <;> simp only [Option.some.injEq, reduceCtorEq] at h <;> subst h
  all_goals first
    | exact hsigned _
    | exact BitVec.isLt _

theorem not_mem_bitwiseOps {name : String} (h : name ∈ numericOps) : name ∉ bitwiseOps := by
  have hall : ∀ n ∈ numericOps, n ∉ bitwiseOps := by decide
  exact hall name h

theorem log2_natAbs_le {n : Int} {k : Nat} (h : n.natAbs < 2 ^ (k + 1)) : n.natAbs.log2 ≤ k := by
  by_cases hn : n.natAbs = 0
  · rw [hn]
    exact Nat.zero_le k
  · exact Nat.lt_succ_iff.mp ((Nat.log2_lt hn).mpr h)

theorem log2_toInt_le (val : Float) : (toInt val).natAbs.log2 ≤ 63 :=
  log2_natAbs_le (Nat.lt_of_le_of_lt (natAbs_toInt_le val) (by decide))

/-- A result that is loaded as an integer has its number, or it is the negative zero. -/
theorem number_eq_of_isIntegral {val : Float} (h : isIntegral val = true) :
    number (ofInt (toInt val)) = number val ∨ toInt val = 0 ∧ number val = .zero .negative :=
  number_eq_of_beq ((log2_toInt_le val).trans (by decide)) h

theorem isIntegral_of_number_zero {val : Float} {s : Float.Model.UnpackedFloat.Sign} (h : number val = .zero s) :
    (isIntegral val && val.abs ≤ ofInt i32Max) = true := by
  rw [isIntegral, toInt_of_number_zero h, beq_of_number_zero h, Bool.true_and, decide_eq_true_eq]
  exact abs_le_of_number_zero h

/-- A folded constant is the result, but for the negative zeros. -/
theorem isResult_foldInts {name : String} {l r : Int} {c : FoldedConst} (hl : IsInt32 l)
    (hr : IsInt32 r) (h : foldInts name l r = some c) :
    c.IsResult name l r ↔ ¬ NegZeroResult name l r := by
  unfold foldInts at h
  cases hbitwise : bitwiseResult name l r with
  | some val =>
    have hjs := jsBitwise_of_bitwiseResult hbitwise
    have hname : ¬ NegZeroResult name l r := by
      have hmem := mem_bitwiseOps_of_jsBitwise hjs
      have hall : ∀ n ∈ bitwiseOps, n ∉ ["Mul", "MulN"] ∧ n ∉ ["Div", "DivN"] ∧ n ≠ "Mod" := by
        decide
      obtain ⟨hmul, hdiv, hmod⟩ := hall name hmem
      rintro (⟨h, -⟩ | ⟨h, -⟩ | ⟨h, -⟩)
      · exact hmul h
      · exact hdiv h
      · exact hmod h
    simp only [hbitwise] at h
    refine iff_of_true ?_ hname
    split at h <;> obtain rfl := Option.some.inj h
    · next hrange =>
      refine fun _ => ⟨val, hjs, ?_⟩
      have hval : val ≠ 0 := by
        rintro rfl
        simp [i32Max, i32Min] at hrange
      have hlog : val.natAbs.log2 ≤ 31 := log2_natAbs_le (natAbs_lt_of_bitwiseResult hbitwise)
      exact number_ofBits_toBits (normal_ofInt hval (by omega)) (by omega) (by omega)
    · exact Or.inl hjs
  | none =>
    simp only [hbitwise, Option.map_eq_some_iff] at h
    obtain ⟨val, hnumeric, h⟩ := h
    obtain ⟨hjs, hzero⟩ := numericResult_spec hl hr hnumeric
    have hname : name ∉ bitwiseOps :=
      not_mem_bitwiseOps ((numericResult_isSome name l r).mp (Option.isSome_of_eq_some hnumeric)).1
    rw [← hzero]
    split at h
    · next hint =>
      obtain rfl := h
      rw [Bool.and_eq_true] at hint
      rcases number_eq_of_isIntegral hint.1 with hsame | ⟨htoInt, hneg⟩
      · refine iff_of_true (Or.inr ⟨val, hjs, hsame.symm⟩) ?_
        rw [← hsame]
        by_cases hval : toInt val = 0
        · rw [hval, number_ofInt_zero]
          simp
        · exact (normal_ofInt hval ((log2_toInt_le val).trans (by decide))).ne_zero
      · refine iff_of_false ?_ (not_not.mpr hneg)
        rintro (hbit | ⟨x, hx, hnumber⟩)
        · exact hname (mem_bitwiseOps_of_jsBitwise hbit)
        · obtain rfl := Option.some.inj (hjs.symm.trans hx)
          rw [hneg, htoInt, number_ofInt_zero] at hnumber
          cases hnumber
    · next hint =>
      obtain rfl := h
      refine iff_of_true (fun hmem => absurd hmem hname) fun hneg => ?_
      exact hint (isIntegral_of_number_zero hneg)

/-- The integers that are loaded have 32 bits. -/
theorem isInt32_of_foldInts {name : String} {l r n : Int}
    (h : foldInts name l r = some (.int n)) : IsInt32 n := by
  unfold foldInts at h
  split at h
  · split at h
    · cases h
    · next hrange =>
      obtain ⟨⟩ := h
      exact ⟨by omega, by omega⟩
  · obtain ⟨val, -, h⟩ := Option.map_eq_some_iff.mp h
    split at h
    · next hint =>
      obtain ⟨⟩ := h
      rw [Bool.and_eq_true, decide_eq_true_eq] at hint
      have hlt : (toInt val).natAbs < 2 ^ 31 := by
        rcases number_eq_of_isIntegral hint.1 with hsame | ⟨hzero, -⟩
        · exact natAbs_lt_of_abs_le ((log2_toInt_le val).trans (by decide)) hsame hint.2
        · rw [hzero]
          decide
      simp only [IsInt32, i32Min, i32Max]
      omega
    · cases h

/-! ### Steps -/

theorem foldInts_isSome (name : String) (l r : Int) :
    (foldInts name l r).isSome ↔
      name ∈ bitwiseOps ++ numericOps ∧ (r = 0 → name ∉ ["Div", "DivN", "Mod"]) := by
  have hbitwise := bitwiseResult_isSome name l r
  have hnumeric := numericResult_isSome name l r
  have hall : ∀ n ∈ bitwiseOps, n ∉ ["Div", "DivN", "Mod"] := by decide
  unfold foldInts
  cases hval : bitwiseResult name l r with
  | some val =>
    have hmem : name ∈ bitwiseOps := hbitwise.mp (by rw [hval]; rfl)
    refine iff_of_true ?_ ⟨List.mem_append_left _ hmem, fun _ => hall name hmem⟩
    simp only
    split <;> rfl
  | none =>
    have hmem : name ∉ bitwiseOps := by
      rw [← hbitwise, hval]
      simp
    simp only [Option.isSome_map, hnumeric, List.mem_append, hmem, false_or]

theorem foldDoubles_isSome {name : String} (l r : UInt64) :
    (foldDoubles name l r).isSome ↔
      name ∈ ["Add", "AddN", "Sub", "SubN", "Mul", "MulN", "Div", "DivN"] := by
  simp only [foldDoubles]
  split <;> simp_all

theorem folded_isSome {op : SsaOp} {consts : Consts} :
    (op.folded consts).isSome ↔ op.Folds consts := by
  rw [SsaOp.folded, Option.isSome_or, Bool.or_eq_true, SsaOp.Folds]
  refine or_congr ?_ ?_
  · cases op.intOperands consts with
    | none => simp
    | some e => simp [foldInts_isSome, Prod.ext_iff]
  · cases op.doubleOperands consts with
    | none => simp
    | some e => simp [foldDoubles_isSome]

theorem loadConst_inj {op : SsaOp} {c c' : FoldedConst} (h : op.loadConst c = op.loadConst c') :
    c = c' := by
  cases c <;> cases c' <;> simp_all [SsaOp.loadConst]

theorem ne_loadConst {op : SsaOp} (h : op.name ∈ bitwiseOps ++ numericOps) (c : FoldedConst) :
    op ≠ op.loadConst c := by
  intro heq
  rw [heq] at h
  revert h
  cases c <;> simp only [SsaOp.loadConst] <;> decide

theorem folded_of_foldOp {consts : Consts} {op : SsaOp} {dst : VarId} {c : FoldedConst}
    (hdst : op.dst = some dst) (hname : op.name ∈ bitwiseOps ++ numericOps)
    (h : (foldOp consts op).1 = op.loadConst c) : op.folded consts = some c := by
  rw [foldOp_eq hdst] at h
  cases hfolded : op.folded consts with
  | none =>
    rw [hfolded] at h
    exact absurd h (ne_loadConst hname c)
  | some c' =>
    rw [hfolded] at h
    rw [loadConst_inj h]

/-- The result of a negative zero is folded. -/
theorem foldInts_of_negZeroResult {name : String} {l r : Int} (h : NegZeroResult name l r) :
    ∃ c, foldInts name l r = some c := by
  rw [← Option.isSome_iff_exists, foldInts_isSome]
  rcases h with ⟨hname, -⟩ | ⟨hname, -, hr⟩ | ⟨hname, -, hr, -⟩
  · rcases List.mem_pair.mp hname with rfl | rfl <;> exact ⟨by decide, fun _ => by decide⟩
  · exact ⟨by rcases List.mem_pair.mp hname with rfl | rfl <;> decide, fun h0 => by omega⟩
  · exact ⟨by rw [hname]; decide, fun h0 => absurd h0 hr⟩

theorem folded_of_foldInts {op : SsaOp} {consts : Consts} {l r : Int} {c : FoldedConst}
    (hops : op.intOperands consts = some (l, r)) (h : foldInts op.name l r = some c) :
    op.folded consts = some c := by
  rw [SsaOp.folded, hops, Option.bind_some, h, Option.some_or]

theorem unknown_insert_iff {consts : Consts} {dst v : VarId} {c : FoldedConst}
    (h : consts.Unknown v) : (consts.insert dst c).Unknown v ↔ v ≠ dst := by
  obtain ⟨hvals, hdoubles⟩ := h
  cases c <;> simp [Consts.Unknown, Consts.insert, hvals, hdoubles]

/-- Nothing is folded from an unknown variable. -/
theorem folded_of_unknown {op : SsaOp} {consts : Consts} {v : VarId} (h : consts.Unknown v)
    (hv : op.operands[1]? = some (.var v) ∨ op.operands[2]? = some (.var v)) :
    op.folded consts = none := by
  obtain ⟨hvals, hdoubles⟩ := h
  have hnone : op.intOperands consts = none ∧ op.doubleOperands consts = none := by
    unfold SsaOp.intOperands SsaOp.doubleOperands
    rcases hv with hv | hv
    · rw [hv]
      constructor <;> split <;> simp_all
    · rw [hv]
      constructor <;> split <;> simp_all
  rw [SsaOp.folded, hnone.1, hnone.2]
  rfl

/-- The integers among the constants have 32 bits. -/
def Consts.InRange (consts : Consts) : Prop := ∀ v n, consts.vals v = some n → IsInt32 n

theorem isInt32_of_intOperands {op : SsaOp} {consts : Consts} {l r : Int} (h : consts.InRange)
    (hops : op.intOperands consts = some (l, r)) : IsInt32 l ∧ IsInt32 r := by
  unfold SsaOp.intOperands at hops
  split at hops
  · next lhs rhs _ _ =>
    simp only [Option.bind_eq_bind, Option.bind_eq_some_iff, Option.pure_def, Option.some.injEq,
      Prod.mk.injEq] at hops
    obtain ⟨l', hl, r', hr, rfl, rfl⟩ := hops
    exact ⟨h lhs _ hl, h rhs _ hr⟩
  · cases hops

theorem isInt32_of_folded {op : SsaOp} {consts : Consts} {n : Int}
    (h : op.folded consts = some (.int n)) : IsInt32 n := by
  rw [SsaOp.folded, Option.or_eq_some_iff] at h
  rcases h with h | ⟨-, h⟩
  · obtain ⟨e, -, he⟩ := Option.bind_eq_some_iff.mp h
    exact isInt32_of_foldInts he
  · obtain ⟨e, -, he⟩ := Option.bind_eq_some_iff.mp h
    simp only [foldDoubles] at he
    split at he <;> cases he

theorem Consts.InRange.foldOp {consts : Consts} (h : consts.InRange) (op : SsaOp) :
    (foldOp consts op).2.InRange := by
  cases hdst : op.dst with
  | none => rwa [foldOp_of_dst_none hdst]
  | some dst =>
    rw [foldOp_eq hdst]
    cases hfolded : op.folded consts with
    | none => exact h
    | some c =>
      cases c with
      | int n =>
        intro v n' hv
        simp only [SsaOp.foldWith, Consts.insert] at hv
        split at hv
        · obtain rfl := Option.some.inj hv
          exact isInt32_of_folded hfolded
        · exact h v n' hv
      | double bits => exact h

/-- A step does what it has to do when it meets the condition. -/
theorem stepRight_iff {phiVars : List VarId} {consts : Consts} {op : SsaOp}
    (hrange : consts.InRange) (hphis : ∀ v ∈ phiVars, consts.Unknown v) :
    StepRight phiVars consts op ↔ StepMeets phiVars consts op := by
  constructor
  · intro h dst hdst
    refine ⟨fun l r hops hneg => ?_, fun hphi hfolds => ?_⟩
    · obtain ⟨c, hc⟩ := foldInts_of_negZeroResult hneg
      obtain ⟨hl, hr⟩ := isInt32_of_intOperands hrange hops
      have hname := ((foldInts_isSome op.name l r).mp (Option.isSome_of_eq_some hc)).1
      have hresult := h.result l r c hops hname
        (by rw [foldOp_eq hdst, folded_of_foldInts hops hc]; rfl)
      exact (isResult_foldInts hl hr hc).mp hresult hneg
    · obtain ⟨c, hc⟩ := Option.isSome_iff_exists.mp (folded_isSome.mpr hfolds)
      obtain ⟨hbefore, hafter⟩ := h.unknown dst hphi
      rw [foldOp_eq hdst, hc] at hafter
      exact (unknown_insert_iff hbefore).mp hafter rfl
  · intro h
    refine ⟨fun l r c hops hname hload => ?_, fun dst c hdst hname hload => ?_,
      fun v hv huse => ?_, fun v hv => ⟨hphis v hv, ?_⟩⟩
    · cases hdst : op.dst with
      | none =>
        rw [foldOp_of_dst_none hdst] at hload
        exact absurd hload (ne_loadConst hname c)
      | some dst =>
        have hfolded := folded_of_foldOp hdst hname hload
        obtain ⟨hl, hr⟩ := isInt32_of_intOperands hrange hops
        rw [SsaOp.folded, hops, Option.bind_some, Option.or_eq_some_iff] at hfolded
        rcases hfolded with hints | ⟨hnone, hdoubles⟩
        · exact (isResult_foldInts hl hr hints).mpr ((h dst hdst).1 l r hops)
        · obtain ⟨e, -, he⟩ := Option.bind_eq_some_iff.mp hdoubles
          -- A bitwise operation is always folded on integers.
          have hbit : op.name ∉ bitwiseOps := by
            intro hmem
            have hsome := (foldInts_isSome op.name l r).mpr ⟨hname, fun _ => ?_⟩
            · rw [hnone] at hsome
              cases hsome
            · have hall : ∀ n ∈ bitwiseOps, n ∉ ["Div", "DivN", "Mod"] := by decide
              exact hall op.name hmem
          cases c with
          | double bits => exact fun hmem => absurd hmem hbit
          | int n =>
            simp only [foldDoubles] at he
            split at he <;> cases he
    · rw [foldOp_eq hdst, folded_of_foldOp hdst hname hload]
      rfl
    · cases hdst : op.dst with
      | none => rw [foldOp_of_dst_none hdst]
      | some dst =>
        rw [foldOp_eq hdst, folded_of_unknown (hphis v hv) huse]
        rfl
    · cases hdst : op.dst with
      | none =>
        rw [foldOp_of_dst_none hdst]
        exact hphis v hv
      | some dst =>
        rw [foldOp_eq hdst]
        cases hfolded : op.folded consts with
        | none => exact hphis v hv
        | some c =>
          refine (unknown_insert_iff (hphis v hv)).mpr ?_
          rintro rfl
          exact (h v hdst).2 hv (folded_isSome.mp (by rw [hfolded]; rfl))

/-! ## The pass -/

theorem forall_foldSteps_iff {phiVars : List VarId} (ops : List SsaOp) {consts : Consts}
    (hrange : consts.InRange) (hphis : ∀ v ∈ phiVars, consts.Unknown v) :
    (∀ e ∈ foldSteps consts ops, StepRight phiVars e.1 e.2) ↔
      ∀ e ∈ foldSteps consts ops, StepMeets phiVars e.1 e.2 := by
  induction ops generalizing consts with
  | nil => simp [foldSteps]
  | cons op ops ih =>
    have hstep : StepRight phiVars consts op ↔ StepMeets phiVars consts op :=
      stepRight_iff hrange hphis
    simp only [foldSteps, List.forall_mem_cons]
    constructor
    · rintro ⟨hright, hrest⟩
      have hafter := fun v hv => (hright.unknown v hv).2
      exact ⟨hstep.mp hright, (ih (hrange.foldOp op) hafter).mp hrest⟩
    · rintro ⟨hmeets, hrest⟩
      have hright := hstep.mpr hmeets
      have hafter := fun v hv => (hright.unknown v hv).2
      exact ⟨hright, (ih (hrange.foldOp op) hafter).mpr hrest⟩

/-- The integer loads have 32 bits. -/
def SsaFunction.LoadsInt32 (s : SsaFunction) : Prop :=
  ∀ op ∈ s.ops, ∀ n, op.constVal = some n → IsInt32 n

theorem SsaFunction.inRange_loadedConsts {s : SsaFunction} (h : s.LoadsInt32) :
    s.loadedConsts.InRange := by
  intro v n hv
  simp only [loadedConsts] at hv
  split at hv
  · cases hv
  · obtain ⟨op, hop, -, hval⟩ := lastDef_eq_some hv
    exact h op hop n hval

theorem SsaFunction.unknown_loadedConsts {s : SsaFunction} {v : VarId} (hv : v ∈ s.phiVars) :
    s.loadedConsts.Unknown v := by
  have hmem : s.phiVars.contains v = true := by simpa using hv
  simp only [Consts.Unknown, loadedConsts, hmem, if_true, and_self]

/-- The constants are right when no fold is a negative zero and none is to the variable of a
phi. -/
theorem SsaFunction.foldsRight_iff {s : SsaFunction} (h : s.LoadsInt32) :
    s.FoldsRight ↔ ∀ e ∈ s.foldSteps, StepMeets s.phiVars e.1 e.2 :=
  forall_foldSteps_iff s.ops (inRange_loadedConsts h) fun _ hv => unknown_loadedConsts hv

/-- The product of two integers that are loaded before it. -/
def productOfLoads (l r : Int) : SsaFunction :=
  ⟨[{
    id := 0
    phis := []
    ops := [⟨"LoadConstInt", some ⟨0, 1⟩, [.dstPlaceholder, .const l], ⟨0, 6, "LoadConstInt", []⟩⟩,
      ⟨"LoadConstInt", some ⟨1, 1⟩, [.dstPlaceholder, .const r], ⟨6, 6, "LoadConstInt", []⟩⟩,
      ⟨"Mul", some ⟨2, 1⟩, [.dstPlaceholder, .var ⟨0, 1⟩, .var ⟨1, 1⟩], ⟨12, 4, "Mul", []⟩⟩]
    successors := []
    predecessors := [] }]⟩

theorem loadsInt32_productOfLoads {l r : Int} (hl : IsInt32 l) (hr : IsInt32 r) :
    (productOfLoads l r).LoadsInt32 := by
  intro op hop n hn
  simp only [SsaFunction.ops, productOfLoads, List.flatMap_cons, List.flatMap_nil,
    List.append_nil, List.mem_cons, List.not_mem_nil, or_false] at hop
  rcases hop with rfl | rfl | rfl
  · obtain rfl := Option.some.inj hn
    exact hl
  · obtain rfl := Option.some.inj hn
    exact hr
  · cases hn

/-- The loads are no folds, and both integers are known at the product. -/
theorem foldSteps_productOfLoads (l r : Int) :
    (productOfLoads l r).foldSteps =
      (productOfLoads l r).ops.map fun op => ((productOfLoads l r).loadedConsts, op) := rfl

/-- A product that is no zero is folded to itself. -/
theorem productOfLoads_foldsRight : (productOfLoads 6 7).FoldsRight := by
  refine (SsaFunction.foldsRight_iff (loadsInt32_productOfLoads (by decide) (by decide))).mpr ?_
  rw [foldSteps_productOfLoads, List.forall_mem_map]
  intro op hop dst hdst
  refine ⟨fun l r hops hneg => ?_, fun hphi => nomatch hphi⟩
  simp only [SsaFunction.ops, productOfLoads, List.flatMap_cons, List.flatMap_nil,
    List.append_nil, List.mem_cons, List.not_mem_nil, or_false] at hop
  rcases hop with rfl | rfl | rfl
  · cases hops
  · cases hops
  · obtain ⟨rfl, rfl⟩ := Prod.mk.inj (Option.some.inj hops)
    simp [NegZeroResult] at hneg

/-- The product of zero and a negative integer is a negative zero, and zero is loaded. -/
theorem productOfLoads_not_foldsRight :
    (productOfLoads 0 (-5)).LoadsInt32 ∧ ¬ (productOfLoads 0 (-5)).FoldsRight := by
  have hloads : (productOfLoads 0 (-5)).LoadsInt32 :=
    loadsInt32_productOfLoads (by decide) (by decide)
  refine ⟨hloads, fun h => ?_⟩
  have hstep := h (_, (productOfLoads 0 (-5)).ops.get ⟨2, by decide⟩) (by
    rw [foldSteps_productOfLoads]
    exact List.mem_map_of_mem (List.get_mem _ _))
  have hmeets := (stepRight_iff (SsaFunction.inRange_loadedConsts hloads)
    fun v hv => SsaFunction.unknown_loadedConsts hv).mp hstep
  exact (hmeets ⟨2, 1⟩ rfl).1 0 (-5) rfl (Or.inl ⟨by decide, Or.inl ⟨rfl, by decide⟩⟩)

end Hermes.Decompile
