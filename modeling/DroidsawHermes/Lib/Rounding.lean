-- SUMMARY: The numbers of 64-bit floats: sums, products and quotients of integers, and which of them are zero.
import DroidsawHermes.Lib.Binary64
import Mathlib

/-!
# Rounding

A number that is packed again is rounded. Of integers that are small enough, it is known which
results are zero, and of which sign.
-/

namespace Binary64

open Float.Model Float.Model.UnpackedFloat

-- ---------------------------------------------------------------------------
-- Packing
-- ---------------------------------------------------------------------------

theorem unpackSign_packComponents {spec : Format} {sign : Sign} {exponent mantissa} :
    unpackSign (packComponents spec sign exponent mantissa) = sign.toBitVec := by
  ext i hi
  have hlow : ¬ spec.mantissaBitsWithoutImplicit + spec.exponentBits + i <
      spec.mantissaBitsWithoutImplicit := by omega
  have hmid : spec.mantissaBitsWithoutImplicit + spec.exponentBits + i -
      spec.mantissaBitsWithoutImplicit - spec.exponentBits = i := by omega
  have hexp : ¬ spec.mantissaBitsWithoutImplicit + spec.exponentBits + i -
      spec.mantissaBitsWithoutImplicit < spec.exponentBits := by omega
  simp only [unpackSign, packComponents, BitVec.extractLsb, BitVec.getElem_cast,
    BitVec.getElem_extractLsb', BitVec.getLsbD_append, hlow, hexp, hmid, if_false,
    BitVec.getLsbD_eq_getElem hi]

theorem ofBitVec_toBitVec (s : Sign) : Sign.ofBitVec s.toBitVec = s := by
  cases s <;> rfl

theorem unpack_pack_zero (s : Sign) : (Float.Model.pack (.zero s)).unpack = .zero s := by
  cases s <;> rfl

/-- A normal number keeps its mantissa and its exponent. -/
theorem unpack_pack_normal (s : Sign) {m : Nat} {e : Int} (hm : 0 < m) (hlog : m.log2 = 52)
    (hlow : -1074 ≤ e) (hhigh : e ≤ 971) :
    (Float.Model.pack (.finite s m e hm)).unpack = .finite s m e hm := by
  obtain ⟨hmin, hmax⟩ := (Nat.log2_eq_iff (Nat.ne_of_gt hm)).mp hlog
  obtain ⟨k, hk⟩ : ∃ k : Nat, e + 1023 + 52 = k := ⟨(e + 1075).toNat, by omega⟩
  have hexp : (BitVec.ofNat 11 k).toNat = k := by
    rw [BitVec.toNat_ofNat, Nat.mod_eq_of_lt (by omega)]
  have hinf : BitVec.ofNat 11 k ≠ -1#11 := by
    intro h
    have hk' := congrArg BitVec.toNat h
    rw [hexp] at hk'
    have hones : (-1#11 : BitVec 11).toNat = 2047 := rfl
    omega
  have hsub : BitVec.ofNat 11 k ≠ 0#11 := by
    intro h
    have hk' := congrArg BitVec.toNat h
    rw [hexp] at hk'
    have hzero : (0#11 : BitVec 11).toNat = 0 := rfl
    omega
  have hbiased : (e + (Format.binary64.exponentBias : Int) + (52 : Nat)).toNat = k := by
    have hbias : (Format.binary64.exponentBias : Int) = 1023 := rfl
    omega
  have hmantissa : (1#1 ++ BitVec.ofNat 52 m).toNat = m := by
    have hnat : (BitVec.ofNat 52 m).toNat = m % 2 ^ 52 := BitVec.toNat_ofNat m 52
    have hone : (1#1 : BitVec 1).toNat = 1 := rfl
    rw [BitVec.toNat_append, ← Nat.shiftLeft_add_eq_or_of_lt (BitVec.ofNat 52 m).isLt, hnat, hone]
    omega
  have hpack : UnpackedFloat.pack Format.binary64 (.finite s m e hm) =
      packComponents Format.binary64 s (BitVec.ofNat 11 k) (BitVec.ofNat 52 m) := by
    simp only [UnpackedFloat.pack]
    rw [hbiased, if_neg (by omega), if_pos (by rw [hlog]; rfl)]
  have hunpack : (Float.Model.pack (.finite s m e hm)).unpack =
      UnpackedFloat.unpack Format.binary64
        (packComponents Format.binary64 s (BitVec.ofNat 11 k) (BitVec.ofNat 52 m)) := by
    rw [← hpack]
    rfl
  rw [hunpack, UnpackedFloat.unpack]
  simp only [unpackMantissa_packComponents, unpackExponent_packComponents,
    unpackSign_packComponents, ofBitVec_toBitVec]
  rw [if_neg hinf, if_neg hsub]
  congr 1
  rw [hexp]
  have hbias : (Format.binary64.exponentBias : Int) = 1023 := rfl
  omega

-- ---------------------------------------------------------------------------
-- Rounding
-- ---------------------------------------------------------------------------

theorem mantissa_shiftRight (em : ExtendedMantissa) (k : Nat) :
    (em >>> k).mantissa = em.mantissa / 2 ^ k := by
  induction k with
  | zero => exact (Nat.div_one _).symm
  | succ k ih =>
    have hstep : (em >>> (k + 1)).mantissa = (em >>> k).mantissa / 2 := rfl
    rw [hstep, ih, Nat.div_div_eq_div_mul, pow_succ]

theorem mantissa_ofMantissaAndAccuracy (m : Nat) (a : Accuracy) :
    (ExtendedMantissa.ofMantissaAndAccuracy m a).mantissa = m := by
  rcases a with _ | (_ | _ | _) <;> rfl

theorem roundedMantissa_bounds (em : ExtendedMantissa) :
    em.mantissa ≤ em.roundedMantissa ∧ em.roundedMantissa ≤ em.mantissa + 1 := by
  obtain ⟨m, r, t⟩ := em
  cases r <;> cases t <;>
    simp only [ExtendedMantissa.roundedMantissa, ExtendedMantissa.accuracy,
      Accuracy.roundToNearestEven] <;> omega

/-- The exponent for a mantissa of at least 53 bits. -/
theorem targetExponent_eq {m : Nat} {e : Int} (hlow : -1074 ≤ e + m.log2 - 52) :
    Format.binary64.targetExponent (totalExponent m e) = e + m.log2 - 52 := by
  have hmin : Format.binary64.minExponent = -1074 := by decide
  have hbits : (Format.binary64.mantissaBits : Int) = 53 := rfl
  rw [Format.targetExponent, totalExponent, hmin, hbits]
  omega

theorem shiftToTargetExponent_eq {m : Nat} {e : Int} (a : Accuracy) (hlog : 52 ≤ m.log2)
    (hlow : -1074 ≤ e + m.log2 - 52) :
    shiftToTargetExponent Format.binary64 m e a =
      (ExtendedMantissa.ofMantissaAndAccuracy m a >>> (m.log2 - 52), e + m.log2 - 52) := by
  have hshift : (e + m.log2 - 52 - e).toNat = m.log2 - 52 := by omega
  simp only [shiftToTargetExponent, shiftToExponent, targetExponent_eq hlow, hshift]
  congr 1
  omega

/-- Rounding gives a normal number, at the exponent of the mantissa or at the next one. -/
theorem roundWithAccuracy_normal (s : Sign) {m : Nat} {e : Int} (a : Accuracy)
    (hlog : 52 ≤ m.log2) (hlow : -1074 ≤ e + m.log2 - 52) :
    ∃ m' e' hm', roundWithAccuracy Format.binary64 s m e a = .finite s m' e' hm' ∧
      m'.log2 = 52 ∧ e + m.log2 - 52 ≤ e' ∧ e' ≤ e + m.log2 - 51 := by
  have hm : m ≠ 0 := by
    rintro rfl
    simp at hlog
  obtain ⟨hle, hlt⟩ := (Nat.log2_eq_iff hm).mp rfl
  obtain ⟨k, hk⟩ : ∃ k, m.log2 = 52 + k := ⟨m.log2 - 52, by omega⟩
  have hshift := shiftToTargetExponent_eq a hlog hlow
  obtain ⟨hround, hround'⟩ := roundedMantissa_bounds
    (ExtendedMantissa.ofMantissaAndAccuracy m a >>> (m.log2 - 52))
  rw [mantissa_shiftRight, mantissa_ofMantissaAndAccuracy] at hround hround'
  have hdiv : 2 ^ 52 ≤ m / 2 ^ (m.log2 - 52) ∧ m / 2 ^ (m.log2 - 52) < 2 ^ 53 := by
    have hk' : m.log2 - 52 = k := by omega
    rw [hk, Nat.pow_add] at hle
    rw [hk, Nat.add_right_comm, Nat.pow_add] at hlt
    rw [hk']
    exact ⟨(Nat.le_div_iff_mul_le (Nat.two_pow_pos k)).mpr hle,
      (Nat.div_lt_iff_lt_mul (Nat.two_pow_pos k)).mpr hlt⟩
  generalize hr : (ExtendedMantissa.ofMantissaAndAccuracy m a >>> (m.log2 - 52)).roundedMantissa = r
    at hround hround'
  -- The rounded mantissa has 53 bits, or it is the next power of two.
  have hsecond : ∃ r', r'.log2 = 52 ∧ ∃ e', e + m.log2 - 52 ≤ e' ∧ e' ≤ e + m.log2 - 51 ∧
      (shiftToTargetExponent Format.binary64 r (e + m.log2 - 52) .exact).1.mantissa = r' ∧
      (shiftToTargetExponent Format.binary64 r (e + m.log2 - 52) .exact).2 = e' := by
    have hrlog : r.log2 = 52 ∨ r = 2 ^ 53 := by
      by_cases hmax : r < 2 ^ 53
      · exact Or.inl ((Nat.log2_eq_iff (by omega)).mpr ⟨by omega, hmax⟩)
      · exact Or.inr (by omega)
    rcases hrlog with hrlog | rfl
    · rw [shiftToTargetExponent_eq .exact (by omega) (by omega), hrlog]
      exact ⟨r, hrlog, _, by omega, by omega,
        (mantissa_shiftRight _ _).trans (Nat.div_one r), rfl⟩
    · have hpow : (2 ^ 53).log2 = 53 := by decide
      rw [shiftToTargetExponent_eq .exact (by omega) (by omega), hpow]
      exact ⟨2 ^ 52, by decide, _, by omega, by omega,
        (mantissa_shiftRight _ _).trans (by decide), rfl⟩
  obtain ⟨r', hlog', e', hlow', hhigh', hmantissa, hexponent⟩ := hsecond
  have hpos : r' ≠ 0 := by
    rintro rfl
    simp at hlog'
  refine ⟨r', e', Nat.pos_of_ne_zero hpos, ?_, hlog', hlow', hhigh'⟩
  simp only [roundWithAccuracy, hshift, hr, hmantissa, hexponent]
  rw [dif_neg hpos]

/-- Nothing is rounded where the mantissa has 53 bits. -/
theorem roundWithAccuracy_exact (s : Sign) {m : Nat} {e : Int} (hm : 0 < m) (hlog : m.log2 = 52)
    (hlow : -1074 ≤ e) : roundWithAccuracy Format.binary64 s m e .exact = .finite s m e hm := by
  have hshift := shiftToTargetExponent_eq (m := m) (e := e) .exact (by omega) (by omega)
  have hzero : ExtendedMantissa.ofMantissaAndAccuracy m .exact >>> (m.log2 - 52) =
      ⟨m, false, false⟩ := by
    rw [hlog]
    rfl
  have hexp : e + m.log2 - 52 = e := by omega
  rw [hzero, hexp] at hshift
  have hround : (ExtendedMantissa.mk m false false).roundedMantissa = m := rfl
  simp only [roundWithAccuracy, hshift, hround]
  rw [dif_neg (Nat.ne_of_gt hm)]

theorem log2_shiftLeft {m : Nat} (hm : m ≠ 0) (k : Nat) : (m <<< k).log2 = m.log2 + k := by
  obtain ⟨hle, hlt⟩ := (Nat.log2_eq_iff hm).mp rfl
  rw [Nat.shiftLeft_eq]
  refine (Nat.log2_eq_iff (Nat.mul_ne_zero hm (Nat.two_pow_pos k).ne')).mpr ⟨?_, ?_⟩
  · rw [Nat.pow_add]
    exact Nat.mul_le_mul_right _ hle
  · rw [Nat.add_right_comm, Nat.pow_add]
    exact Nat.mul_lt_mul_of_pos_right hlt (Nat.two_pow_pos k)

/-- A normal number with its sign and bounds for its exponent. -/
def Normal (s : Sign) (lo hi : Int) (x : UnpackedFloat) : Prop :=
  ∃ m e hm, x = .finite s m e hm ∧ m.log2 = 52 ∧ lo ≤ e ∧ e ≤ hi

theorem Normal.mono {s : Sign} {lo hi lo' hi' : Int} {x : UnpackedFloat} (h : Normal s lo hi x)
    (hlo : lo' ≤ lo) (hhi : hi ≤ hi') : Normal s lo' hi' x := by
  obtain ⟨m, e, hm, rfl, hlog, hlow, hhigh⟩ := h
  exact ⟨m, e, hm, rfl, hlog, hlo.trans hlow, hhigh.trans hhi⟩

theorem Normal.ne_zero {s t : Sign} {lo hi : Int} {x : UnpackedFloat} (h : Normal s lo hi x) :
    x ≠ .zero t := by
  obtain ⟨m, e, hm, rfl, -⟩ := h
  simp

/-- Packing keeps a normal number in the range of the format. -/
theorem Normal.unpack_pack {s : Sign} {lo hi : Int} {x : UnpackedFloat} (h : Normal s lo hi x)
    (hlo : -1074 ≤ lo) (hhi : hi ≤ 971) : (Float.Model.pack x).unpack = x := by
  obtain ⟨m, e, hm, rfl, hlog, hlow, hhigh⟩ := h
  exact unpack_pack_normal s hm hlog (by omega) (by omega)

theorem normal_roundWithAccuracy (s : Sign) {m : Nat} {e : Int} (a : Accuracy)
    (hlog : 52 ≤ m.log2) (hlow : -1074 ≤ e + m.log2 - 52) :
    Normal s (e + m.log2 - 52) (e + m.log2 - 51) (roundWithAccuracy Format.binary64 s m e a) := by
  obtain ⟨m', e', hm', heq, hlog', hlow', hhigh'⟩ := roundWithAccuracy_normal s a hlog hlow
  exact ⟨m', e', hm', heq, hlog', hlow', hhigh'⟩

/-- A mantissa of at most 53 bits is not rounded. -/
theorem normal_round_exact (s : Sign) {m : Nat} {e : Int} (hm : m ≠ 0) (hlog : m.log2 ≤ 52)
    (hlow : -1074 ≤ e + m.log2 - 52) :
    Normal s (e + m.log2 - 52) (e + m.log2 - 52) (UnpackedFloat.round Format.binary64 s m e) := by
  simp only [UnpackedFloat.round, decreaseExponent, targetExponent_eq hlow]
  have hshift : (e - (e + m.log2 - 52)).toNat = 52 - m.log2 := by omega
  have hlog' : (m <<< (52 - m.log2)).log2 = 52 := by
    rw [log2_shiftLeft hm]
    omega
  have hpos : 0 < m <<< (52 - m.log2) := by
    rw [Nat.shiftLeft_eq]
    positivity
  rw [hshift, roundWithAccuracy_exact s hpos hlog' (by omega)]
  exact ⟨_, _, hpos, rfl, hlog', by omega, by omega⟩

theorem normal_round (s : Sign) {m : Nat} {e : Int} (hm : m ≠ 0)
    (hlow : -1074 ≤ e + m.log2 - 52) :
    Normal s (e + m.log2 - 52) (e + m.log2 - 51) (UnpackedFloat.round Format.binary64 s m e) := by
  by_cases hlog : m.log2 ≤ 52
  · exact (normal_round_exact s hm hlog hlow).mono (by omega) (by omega)
  · have hshift : (e - (e + m.log2 - 52)).toNat = 0 := by omega
    have h := normal_roundWithAccuracy s (e := e - (0 : Nat)) .exact (by omega : 52 ≤ m.log2)
      (by omega)
    simp only [UnpackedFloat.round, decreaseExponent, targetExponent_eq hlow]
    rw [hshift, Nat.shiftLeft_zero]
    exact h.mono (by omega) (by omega)

def signOf (n : Int) : Sign := if n < 0 then .negative else .positive

theorem normalize_zero (e : Int) (z : Sign) :
    UnpackedFloat.normalize Format.binary64 0 e z = .zero z := by
  simp [UnpackedFloat.normalize]

theorem normalize_eq {n : Int} (hn : n ≠ 0) (e : Int) (z : Sign) :
    UnpackedFloat.normalize Format.binary64 n e z =
      UnpackedFloat.round Format.binary64 (signOf n) n.natAbs e := by
  rcases Int.lt_or_gt_of_ne hn with hneg | hpos
  · have hcmp : compare n 0 = .lt := Int.compare_eq_lt.mpr hneg
    have habs : (-n).toNat = n.natAbs := by omega
    simp only [UnpackedFloat.normalize, hcmp, habs, signOf, if_pos hneg]
  · have hcmp : compare n 0 = .gt := Int.compare_eq_gt.mpr hpos
    have habs : n.toNat = n.natAbs := by omega
    simp only [UnpackedFloat.normalize, hcmp, habs, signOf, if_neg (by omega : ¬ n < 0)]

-- ---------------------------------------------------------------------------
-- Integers
-- ---------------------------------------------------------------------------

theorem number_ofInt_zero : number (ofInt 0) = .zero .positive := by
  have hpack : number (ofInt 0) = (Float.Model.pack (.zero .positive)).unpack := by
    simp [number, ofInt, Float.Model.ofInt, UnpackedFloat.ofInt, normalize_zero]
  rw [hpack, unpack_pack_zero]

theorem normal_ofInt {n : Int} (hn : n ≠ 0) (hlog : n.natAbs.log2 ≤ 1000) :
    Normal (signOf n) (n.natAbs.log2 - 52) (n.natAbs.log2 - 51) (number (ofInt n)) := by
  have habs : n.natAbs ≠ 0 := Int.natAbs_ne_zero.mpr hn
  have h : Normal (signOf n) (0 + n.natAbs.log2 - 52) (0 + n.natAbs.log2 - 51)
      (UnpackedFloat.ofInt Format.binary64 n) := by
    rw [UnpackedFloat.ofInt, normalize_eq hn]
    exact normal_round (signOf n) habs (by omega)
  have hnumber : number (ofInt n) = UnpackedFloat.ofInt Format.binary64 n :=
    h.unpack_pack (by omega) (by omega)
  rw [hnumber]
  exact h.mono (by omega) (by omega)

/-- Integers of at most 53 bits have their exponent. -/
theorem normal_ofInt_exact {n : Int} (hn : n ≠ 0) (hlog : n.natAbs.log2 ≤ 52) :
    Normal (signOf n) (n.natAbs.log2 - 52) (n.natAbs.log2 - 52) (number (ofInt n)) := by
  have h : Normal (signOf n) (0 + n.natAbs.log2 - 52) (0 + n.natAbs.log2 - 52)
      (UnpackedFloat.ofInt Format.binary64 n) := by
    rw [UnpackedFloat.ofInt, normalize_eq hn]
    exact normal_round_exact (signOf n) (Int.natAbs_ne_zero.mpr hn) hlog (by omega)
  have hnumber : number (ofInt n) = UnpackedFloat.ofInt Format.binary64 n :=
    h.unpack_pack (by omega) (by omega)
  rw [hnumber]
  exact h.mono (by omega) (by omega)

/-- Integers of at most 32 bits. -/
theorem normal_ofInt_small {n : Int} (hn : n ≠ 0) (hsmall : n.natAbs ≤ 2 ^ 31) :
    Normal (signOf n) (-52) (-21) (number (ofInt n)) := by
  have hlog : n.natAbs.log2 < 32 := (Nat.log2_lt (Int.natAbs_ne_zero.mpr hn)).mpr (by omega)
  exact (normal_ofInt_exact hn (by omega)).mono (by omega) (by omega)

/-- A float is read back from its bits. -/
theorem number_ofBits_toBits {s : Sign} {lo hi : Int} {x : Float} (h : Normal s lo hi (number x))
    (hlo : -1074 ≤ lo) (hhi : hi ≤ 971) : number (.ofBits x.toBits) = number x :=
  h.unpack_pack hlo hhi

-- ---------------------------------------------------------------------------
-- Operations on integers
-- ---------------------------------------------------------------------------

/-- A sum that is packed is no negative zero. -/
theorem unpack_pack_normalize_ne {n e : Int} (hn : n.natAbs < 2 ^ 100) (hlo : -100 ≤ e)
    (hhi : e ≤ 100) :
    (Float.Model.pack (UnpackedFloat.normalize Format.binary64 n e .positive)).unpack ≠
      .zero .negative := by
  by_cases hzero : n = 0
  · rw [hzero, normalize_zero, unpack_pack_zero]
    simp
  · have hlog : n.natAbs.log2 < 100 := (Nat.log2_lt (Int.natAbs_ne_zero.mpr hzero)).mpr hn
    have h := normal_round (signOf n) (e := e) (Int.natAbs_ne_zero.mpr hzero) (by omega)
    rw [normalize_eq hzero, h.unpack_pack (by omega) (by omega)]
    exact h.ne_zero

theorem natAbs_apply (s : Sign) (n : Int) : (s.apply n).natAbs = n.natAbs := by
  cases s
  · exact Int.natAbs_neg n
  · rfl

/-- A mantissa at the smaller exponent of two integers. -/
theorem natAbs_apply_shiftLeft_lt (s : Sign) {m k : Nat} (hlog : m.log2 = 52) (hk : k ≤ 40) :
    (s.apply (m <<< k : Nat)).natAbs < 2 ^ 93 := by
  have hlt : m < 2 ^ 53 := by
    by_cases hm : m = 0
    · omega
    · exact ((Nat.log2_eq_iff hm).mp hlog).2
  rw [natAbs_apply, Int.natAbs_natCast, Nat.shiftLeft_eq]
  calc m * 2 ^ k < 2 ^ 53 * 2 ^ k := Nat.mul_lt_mul_of_pos_right hlt (Nat.two_pow_pos k)
    _ ≤ 2 ^ 53 * 2 ^ 40 := Nat.mul_le_mul_left _ (Nat.pow_le_pow_right (by decide) hk)
    _ = 2 ^ 93 := by decide

theorem number_add (x y : Float) : number (x + y) =
    (Float.Model.pack (UnpackedFloat.add Format.binary64 (number x) (number y))).unpack := rfl

theorem number_sub (x y : Float) : number (x - y) =
    (Float.Model.pack (UnpackedFloat.sub Format.binary64 (number x) (number y))).unpack := rfl

theorem number_mul (x y : Float) : number (x * y) =
    (Float.Model.pack (UnpackedFloat.mul Format.binary64 (number x) (number y))).unpack := rfl

theorem number_div (x y : Float) : number (x / y) =
    (Float.Model.pack (UnpackedFloat.div Format.binary64 (number x) (number y))).unpack := rfl

section Operands

variable {l r : Int}

/-- A zero, or a normal number of the exponents that integers have. -/
def Small (x : UnpackedFloat) : Prop := (∃ s, x = .zero s) ∨ ∃ s, Normal s (-52) (-21) x

theorem small_ofInt {n : Int} (hn : n.natAbs ≤ 2 ^ 31) : Small (number (ofInt n)) := by
  by_cases h0 : n = 0
  · exact Or.inl ⟨.positive, by rw [h0, number_ofInt_zero]⟩
  · exact Or.inr ⟨signOf n, normal_ofInt_small h0 hn⟩

theorem Small.neg {x : UnpackedFloat} (h : Small x) : Small x.neg := by
  rcases h with ⟨s, rfl⟩ | ⟨s, m, e, hm, rfl, hlog, hlo, hhi⟩
  · exact Or.inl ⟨-s, rfl⟩
  · exact Or.inr ⟨-s, m, e, hm, rfl, hlog, hlo, hhi⟩

/-- A sum with a number that is no negative zero is none. -/
theorem unpack_pack_add_ne {x y : UnpackedFloat} (hx : Small x) (hy : Small y)
    (hne : x ≠ .zero .negative) :
    (Float.Model.pack (UnpackedFloat.add Format.binary64 x y)).unpack ≠ .zero .negative := by
  rcases hx with ⟨s, rfl⟩ | ⟨s, hx⟩
  · cases s with
    | negative => exact absurd rfl hne
    | positive =>
      rcases hy with ⟨t, rfl⟩ | ⟨t, hy⟩
      · cases t <;> exact fun h => by cases (unpack_pack_zero .positive).symm.trans h
      · have hadd : UnpackedFloat.add Format.binary64 (.zero .positive) y = y := by
          obtain ⟨m, e, hm, rfl, -⟩ := hy
          rfl
        rw [hadd, hy.unpack_pack (by omega) (by omega)]
        exact hy.ne_zero
  · rcases hy with ⟨t, rfl⟩ | ⟨t, hy⟩
    · have hadd : UnpackedFloat.add Format.binary64 x (.zero t) = x := by
        obtain ⟨m, e, hm, rfl, -⟩ := hx
        rfl
      rw [hadd, hx.unpack_pack (by omega) (by omega)]
      exact hx.ne_zero
    · obtain ⟨m, e, hm, rfl, hlog, hlo, hhi⟩ := hx
      obtain ⟨m', e', hm', rfl, hlog', hlo', hhi'⟩ := hy
      rw [UnpackedFloat.add]
      refine unpack_pack_normalize_ne ?_ (by omega) (by omega)
      have hshift := natAbs_apply_shiftLeft_lt s hlog (k := (e - min e e').toNat) (by omega)
      have hshift' := natAbs_apply_shiftLeft_lt t hlog' (k := (e' - min e e').toNat) (by omega)
      have hsum := Int.natAbs_add_le (s.apply (m <<< (e - min e e').toNat : Nat))
        (t.apply (m' <<< (e' - min e e').toNat : Nat))
      exact Nat.lt_of_le_of_lt hsum (Nat.lt_of_lt_of_le (Nat.add_lt_add hshift hshift') (by decide))

theorem apply_neg (s : Sign) (n : Int) : (-s).apply n = -s.apply n := by
  cases s
  · exact (Int.neg_neg n).symm
  · rfl

/-- Subtraction is addition of the opposite number. -/
theorem sub_eq_add_neg {x y : UnpackedFloat} (hx : Small x) (hy : Small y) :
    UnpackedFloat.sub Format.binary64 x y = UnpackedFloat.add Format.binary64 x y.neg := by
  rcases hx with ⟨s, rfl⟩ | ⟨s, m, e, hm, rfl, -⟩ <;>
    rcases hy with ⟨t, rfl⟩ | ⟨t, m', e', hm', rfl, -⟩
  · cases s <;> cases t <;> rfl
  · rfl
  · rfl
  · simp only [UnpackedFloat.sub, UnpackedFloat.add, UnpackedFloat.neg, apply_neg,
      Int.sub_eq_add_neg]

theorem number_ofInt_ne_negZero {n : Int} (hn : n.natAbs ≤ 2 ^ 31) :
    number (ofInt n) ≠ .zero .negative := by
  by_cases h0 : n = 0
  · rw [h0, number_ofInt_zero]
    simp
  · exact (normal_ofInt_small h0 hn).ne_zero

/-- A sum of integers is no negative zero. -/
theorem number_add_ofInt_ne (hl : l.natAbs ≤ 2 ^ 31) (hr : r.natAbs ≤ 2 ^ 31) :
    number (ofInt l + ofInt r) ≠ .zero .negative := by
  rw [number_add]
  exact unpack_pack_add_ne (small_ofInt hl) (small_ofInt hr) (number_ofInt_ne_negZero hl)

/-- A difference of integers is no negative zero. -/
theorem number_sub_ofInt_ne (hl : l.natAbs ≤ 2 ^ 31) (hr : r.natAbs ≤ 2 ^ 31) :
    number (ofInt l - ofInt r) ≠ .zero .negative := by
  rw [number_sub, sub_eq_add_neg (small_ofInt hl) (small_ofInt hr)]
  exact unpack_pack_add_ne (small_ofInt hl) (small_ofInt hr).neg (number_ofInt_ne_negZero hl)

/-- A product is a negative zero when one factor is zero and the other one is negative. -/
theorem number_mul_ofInt_eq_iff (hl : l.natAbs ≤ 2 ^ 31) (hr : r.natAbs ≤ 2 ^ 31) :
    number (ofInt l * ofInt r) = .zero .negative ↔ l = 0 ∧ r < 0 ∨ l < 0 ∧ r = 0 := by
  rw [number_mul]
  by_cases hl0 : l = 0
  · subst hl0
    by_cases hr0 : r = 0
    · subst hr0
      rw [number_ofInt_zero]
      have hmul : UnpackedFloat.mul Format.binary64 (.zero .positive) (.zero .positive) =
          .zero .positive := rfl
      rw [hmul, unpack_pack_zero]
      simp
    · obtain ⟨m, e, hm, heq, -⟩ := normal_ofInt_small hr0 hr
      have hmul : UnpackedFloat.mul Format.binary64 (.zero .positive) (.finite (signOf r) m e hm) =
          .zero (signOf r) := by
        cases signOf r <;> rfl
      rw [number_ofInt_zero, heq, hmul, unpack_pack_zero, signOf]
      split <;> simp_all
  · by_cases hr0 : r = 0
    · subst hr0
      obtain ⟨m, e, hm, heq, -⟩ := normal_ofInt_small hl0 hl
      have hmul : UnpackedFloat.mul Format.binary64 (.finite (signOf l) m e hm) (.zero .positive) =
          .zero (signOf l) := by
        cases signOf l <;> rfl
      rw [number_ofInt_zero, heq, hmul, unpack_pack_zero, signOf]
      split <;> simp_all
    · obtain ⟨m, e, hm, heq, hlog, hlo, hhi⟩ := normal_ofInt_small hl0 hl
      obtain ⟨m', e', hm', heq', hlog', hlo', hhi'⟩ := normal_ofInt_small hr0 hr
      obtain ⟨hmin, hmax⟩ := (Nat.log2_eq_iff (Nat.ne_of_gt hm)).mp hlog
      obtain ⟨hmin', hmax'⟩ := (Nat.log2_eq_iff (Nat.ne_of_gt hm')).mp hlog'
      have hlow : 2 ^ 52 * 2 ^ 52 ≤ m * m' := Nat.mul_le_mul hmin hmin'
      have hhigh : m * m' < 2 ^ 53 * 2 ^ 53 := Nat.mul_lt_mul'' hmax hmax'
      have hne : m * m' ≠ 0 := by omega
      have hge : 104 ≤ (m * m').log2 := (Nat.le_log2 hne).mpr (by omega)
      have hlt : (m * m').log2 < 106 := (Nat.log2_lt hne).mpr (by omega)
      have h := normal_roundWithAccuracy (signOf l * signOf r) (m := m * m') (e := e + e') .exact
        (by omega) (by omega)
      have hmul : UnpackedFloat.mul Format.binary64 (.finite (signOf l) m e hm)
          (.finite (signOf r) m' e' hm') =
            roundWithAccuracy Format.binary64 (signOf l * signOf r) (m * m') (e + e') .exact := rfl
      rw [heq, heq', hmul, h.unpack_pack (by omega) (by omega)]
      exact iff_of_false h.ne_zero (by omega)

theorem divCore_eq {m m' : Nat} {e e' : Int} (hlog : m.log2 = 52) (hlog' : m'.log2 = 52)
    (hlow : -1074 ≤ e - e' - 53) :
    divCore Format.binary64 m e m' e' =
      ((m <<< 53) / m', e - e' - 53, accuracyOfFraction ((m <<< 53) % m') m') := by
  have hmin : Format.binary64.minExponent = -1074 := by decide
  have hbits : (Format.binary64.mantissaBits : Int) = 53 := rfl
  have htarget : min (e - e') (Format.binary64.targetExponent
      (totalExponent m e - totalExponent m' e')) = e - e' - 53 := by
    rw [Format.targetExponent, totalExponent, totalExponent, hmin, hbits, hlog, hlog']
    omega
  have hshift : (e - e' - (e - e' - 53)).toNat = 53 := by omega
  simp only [divCore, htarget, hshift]

/-- A quotient is a negative zero when zero is divided by a negative integer. -/
theorem number_div_ofInt_eq_iff (hl : l.natAbs ≤ 2 ^ 31) (hr : r.natAbs ≤ 2 ^ 31) (hr0 : r ≠ 0) :
    number (ofInt l / ofInt r) = .zero .negative ↔ l = 0 ∧ r < 0 := by
  rw [number_div]
  obtain ⟨m', e', hm', heq', hlog', hlo', hhi'⟩ := normal_ofInt_small hr0 hr
  by_cases hl0 : l = 0
  · have hdiv : UnpackedFloat.div Format.binary64 (.zero .positive)
        (.finite (signOf r) m' e' hm') = .zero (signOf r) := by
      cases signOf r <;> rfl
    rw [hl0, number_ofInt_zero, heq', hdiv, unpack_pack_zero, signOf]
    split <;> simp_all
  · obtain ⟨m, e, hm, heq, hlog, hlo, hhi⟩ := normal_ofInt_small hl0 hl
    obtain ⟨hmin, hmax⟩ := (Nat.log2_eq_iff (Nat.ne_of_gt hm)).mp hlog
    obtain ⟨hmin', hmax'⟩ := (Nat.log2_eq_iff (Nat.ne_of_gt hm')).mp hlog'
    have hge : 2 ^ 52 ≤ (m <<< 53) / m' := by
      rw [Nat.shiftLeft_eq, Nat.le_div_iff_mul_le hm']
      calc 2 ^ 52 * m' ≤ 2 ^ 52 * 2 ^ 53 := Nat.mul_le_mul_left _ hmax'.le
        _ ≤ m * 2 ^ 53 := Nat.mul_le_mul_right _ hmin
    have hlt : (m <<< 53) / m' < 2 ^ 54 := by
      rw [Nat.shiftLeft_eq, Nat.div_lt_iff_lt_mul hm']
      calc m * 2 ^ 53 < 2 ^ 53 * 2 ^ 53 := Nat.mul_lt_mul_of_pos_right hmax (by decide)
        _ = 2 ^ 54 * 2 ^ 52 := by decide
        _ ≤ 2 ^ 54 * m' := Nat.mul_le_mul_left _ hmin'
    have hne : (m <<< 53) / m' ≠ 0 := by omega
    have hlog52 : 52 ≤ ((m <<< 53) / m').log2 := (Nat.le_log2 hne).mpr hge
    have hlog54 : ((m <<< 53) / m').log2 < 54 := (Nat.log2_lt hne).mpr hlt
    have h := normal_roundWithAccuracy (signOf l / signOf r) (e := e - e' - 53)
      (accuracyOfFraction ((m <<< 53) % m') m') hlog52 (by omega)
    have hdiv : UnpackedFloat.div Format.binary64 (.finite (signOf l) m e hm)
        (.finite (signOf r) m' e' hm') = roundWithAccuracy Format.binary64 (signOf l / signOf r)
          ((m <<< 53) / m') (e - e' - 53) (accuracyOfFraction ((m <<< 53) % m') m') := by
      have hcore := divCore_eq hlog hlog' (show -1074 ≤ e - e' - 53 by omega)
      simp only [UnpackedFloat.div, hcore]
    rw [heq, heq', hdiv, h.unpack_pack (by omega) (by omega)]
    exact iff_of_false h.ne_zero (by omega)

/-- A remainder is a negative zero where a negative integer is divided without a rest. -/
theorem number_remainder_eq_iff (hl : l.natAbs ≤ 2 ^ 31) :
    number (remainder l r) = .zero .negative ↔ l < 0 ∧ l.tmod r = 0 := by
  unfold remainder
  split
  · next h => exact iff_of_true (unpack_pack_zero .negative) ⟨h.2, h.1⟩
  · next h =>
    refine iff_of_false ?_ fun hzero => h ⟨hzero.2, hzero.1⟩
    have hle : (l.tmod r).natAbs ≤ l.natAbs := by
      rw [Int.natAbs_tmod]
      exact Nat.mod_le _ _
    exact number_ofInt_ne_negZero (hle.trans hl)

end Operands

-- ---------------------------------------------------------------------------
-- Comparisons
-- ---------------------------------------------------------------------------

theorem eq_of_compare_then {e e' : Int} {m m' : Nat}
    (h : (compare e e').then (compare m m') = .eq) : e = e' ∧ m = m' := by
  rw [Ordering.then_eq_eq] at h
  exact ⟨compare_eq_iff_eq.mp h.1, compare_eq_iff_eq.mp h.2⟩

theorem eq_of_compare {s s' : Sign} {m m' : Nat} {e e' : Int} (hm : 0 < m) (hm' : 0 < m')
    (h : UnpackedFloat.compare (.finite s m e hm) (.finite s' m' e' hm') = some .eq) :
    s = s' ∧ m = m' ∧ e = e' := by
  cases s <;> cases s'
  · obtain ⟨he, hmant⟩ := eq_of_compare_then (Ordering.swap_eq_eq.mp (Option.some.inj h))
    exact ⟨rfl, hmant, he⟩
  · cases h
  · cases h
  · obtain ⟨he, hmant⟩ := eq_of_compare_then (Option.some.inj h)
    exact ⟨rfl, hmant, he⟩

/-- An integer that compares equal is the same number, or the other zero. -/
theorem number_eq_of_beq {n : Int} (hlog : n.natAbs.log2 ≤ 1000) {x : Float}
    (h : (ofInt n == x) = true) :
    number (ofInt n) = number x ∨ n = 0 ∧ number x = .zero .negative := by
  have hcompare : (number (ofInt n)).compare (number x) = some .eq := beq_iff_eq.mp h
  by_cases hn : n = 0
  · subst hn
    rw [number_ofInt_zero] at hcompare ⊢
    generalize number x = y at hcompare ⊢
    cases y with
    | zero s => cases s <;> simp
    | infinity s => cases s <;> cases hcompare
    | notANumber => cases hcompare
    | finite s m e hm => cases s <;> cases hcompare
  · obtain ⟨m, e, hm, heq, -⟩ := normal_ofInt hn hlog
    left
    rw [heq] at hcompare ⊢
    generalize number x = y at hcompare ⊢
    generalize signOf n = s at hcompare ⊢
    cases y with
    | zero s' => cases s <;> cases hcompare
    | infinity s' => cases s <;> cases s' <;> cases hcompare
    | notANumber => cases s <;> cases hcompare
    | finite s' m' e' hm' =>
      obtain ⟨rfl, rfl, rfl⟩ := eq_of_compare hm hm' hcompare
      rfl

theorem exponent_le_of_le {m m' : Nat} {e e' : Int} (hm : 0 < m) (hm' : 0 < m')
    (h : UnpackedFloat.le (.finite .positive m e hm) (.finite .positive m' e' hm') = true) :
    e ≤ e' := by
  have hle : ((compare e e').then (compare m m')).isLE = true := h
  by_contra hlt
  have hgt : compare e e' = .gt := Int.compare_eq_gt.mpr (by omega)
  rw [hgt] at hle
  cases hle

/-- An integer of at most 31 bits in its magnitude, by the comparison with the greatest one. -/
theorem natAbs_lt_of_abs_le {n : Int} (hlog : n.natAbs.log2 ≤ 1000) {x : Float}
    (hsame : number (ofInt n) = number x) (h : x.abs ≤ ofInt (2 ^ 31 - 1)) : n.natAbs < 2 ^ 31 := by
  by_cases hn : n = 0
  · subst hn
    decide
  obtain ⟨m, e, hm, heq, hmlog, hlo, hhi⟩ := normal_ofInt hn hlog
  have hmax : ((2 ^ 31 - 1 : Int).natAbs).log2 = 30 := by decide
  obtain ⟨m', e', hm', heq', -, -, hhi'⟩ :=
    normal_ofInt_exact (n := 2 ^ 31 - 1) (by decide) (by rw [hmax]; decide)
  have hsign : signOf (2 ^ 31 - 1) = .positive := rfl
  have habs : number x.abs = .finite .positive m e hm := by
    have hx : number x.abs = (Float.Model.pack (UnpackedFloat.abs (number x))).unpack := rfl
    rw [hx, ← hsame, heq]
    exact unpack_pack_normal .positive hm hmlog (by omega) (by omega)
  have hle : UnpackedFloat.le (number x.abs) (number (ofInt (2 ^ 31 - 1))) = true :=
    of_decide_eq_true h
  rw [habs, heq', hsign] at hle
  have hexp := exponent_le_of_le hm hm' hle
  rw [hmax] at hhi'
  exact (Nat.log2_lt (Int.natAbs_ne_zero.mpr hn)).mp (by omega)

theorem toInt_of_number_zero {s : Sign} {x : Float} (h : number x = .zero s) : toInt x = 0 := by
  have hx : toInt x = (number x).toInt64.toInt := rfl
  rw [hx, h]
  rfl

theorem natAbs_toInt_le (x : Float) : (toInt x).natAbs ≤ 2 ^ 63 := by
  have hle : toInt x < 2 ^ 63 := Int64.toInt_lt _
  have hge : -2 ^ 63 ≤ toInt x := Int64.le_toInt _
  omega

theorem beq_of_number_zero {s : Sign} {x : Float} (h : number x = .zero s) :
    (ofInt 0 == x) = true := by
  have hx : (ofInt 0 == x) = UnpackedFloat.beq (number (ofInt 0)) (number x) := rfl
  rw [hx, h, number_ofInt_zero]
  cases s <;> rfl

theorem abs_le_of_number_zero {s : Sign} {x : Float} (h : number x = .zero s) :
    x.abs ≤ ofInt (2 ^ 31 - 1) := by
  have habs : number x.abs = .zero .positive := by
    have hx : number x.abs = (Float.Model.pack (UnpackedFloat.abs (number x))).unpack := rfl
    rw [hx, h]
    exact unpack_pack_zero .positive
  obtain ⟨m, e, hm, heq, -⟩ := normal_ofInt (n := 2 ^ 31 - 1) (by decide) (by decide)
  have hsign : signOf (2 ^ 31 - 1) = .positive := rfl
  have hle : UnpackedFloat.le (number x.abs) (number (ofInt (2 ^ 31 - 1))) = true := by
    rw [habs, heq, hsign]
    rfl
  exact decide_eq_true hle

-- ---------------------------------------------------------------------------
-- Floats by their numbers
-- ---------------------------------------------------------------------------

theorem toBitVec_ofBitVec (b : BitVec 1) : (Sign.ofBitVec b).toBitVec = b := by
  revert b
  decide

/-- A bit pattern is put together from its parts. -/
theorem packComponents_parts (b : BitVec Format.binary64.numBits) :
    packComponents Format.binary64 (.ofBitVec (unpackSign b)) (unpackExponent b)
      (unpackMantissa b) = b := by
  have h52 : Format.binary64.mantissaBitsWithoutImplicit = 52 := rfl
  have h11 : Format.binary64.exponentBits = 11 := rfl
  rw [packComponents, toBitVec_ofBitVec]
  refine BitVec.eq_of_getLsbD_eq fun i hi => ?_
  have hi : i < 64 := hi
  simp only [unpackSign, unpackExponent, unpackMantissa, BitVec.extractLsb, BitVec.getLsbD_append,
    BitVec.getLsbD_cast, BitVec.getLsbD_extractLsb']
  by_cases hlow : i < 52
  · simp [hlow]
  · by_cases hmid : i - 52 < 11
    · have hsum : 52 + (i - 52) = i := by omega
      simp [hlow, hmid, hsum]
    · obtain rfl : i = 63 := by omega
      have htop : b.getLsbD 63 = b[63] := BitVec.getLsbD_eq_getElem hi
      simp [hlow, htop]

/-- A valid bit pattern is packed again to itself. -/
theorem pack_unpack_valid {b : BitVec Format.binary64.numBits} (valid : Format.binary64.Valid b) :
    UnpackedFloat.pack Format.binary64 (UnpackedFloat.unpack Format.binary64 b) = b := by
  have hparts := packComponents_parts b
  have h53 : Format.binary64.mantissaBits = 53 := rfl
  have hbias : ((Format.binary64.exponentBias + Format.binary64.mantissaBitsWithoutImplicit : Nat) :
    Int) = 1075 := rfl
  have hlt : (unpackMantissa b).toNat < 2 ^ 52 := (unpackMantissa b).isLt
  rw [UnpackedFloat.unpack]
  dsimp only
  split
  · next hinf =>
    split
    · next hmantissa =>
      rw [hinf, hmantissa] at hparts
      exact hparts
    · next hmantissa => exact (valid.eq_packedNaN hinf hmantissa).symm
  · next hinf =>
    split
    · next hsub =>
      split
      · next hmantissa =>
        rw [hsub, hmantissa] at hparts
        exact hparts
      · next hmantissa =>
        have hpos : (unpackMantissa b).toNat ≠ 0 := fun h0 =>
          hmantissa (BitVec.eq_of_toNat_eq h0)
        have hlog : (unpackMantissa b).toNat.log2 < 52 := (Nat.log2_lt hpos).mpr hlt
        have hzero : ((0#(Format.binary64.exponentBits)).toNat : Int) = 0 := rfl
        have hexp : (((unpackExponent b).toNat : Int) - (Format.binary64.exponentBias +
            Format.binary64.mantissaBitsWithoutImplicit) + 1 + Format.binary64.exponentBias +
            Format.binary64.mantissaBitsWithoutImplicit).toNat = 1 := by
          rw [hsub, hzero]
          omega
        simp only [UnpackedFloat.pack, hexp]
        rw [if_neg (by decide), if_neg (by rw [h53]; omega), BitVec.ofNat_toNat, BitVec.setWidth_eq]
        rw [hsub] at hparts
        exact hparts
    · next hsub =>
      have hone : (1#1 : BitVec 1).toNat = 1 := rfl
      have hnat : (1#1 ++ unpackMantissa b).toNat = 2 ^ 52 + (unpackMantissa b).toNat := by
        rw [BitVec.toNat_append, ← Nat.shiftLeft_add_eq_or_of_lt (unpackMantissa b).isLt, hone]
        rfl
      have hlog : (1#1 ++ unpackMantissa b).toNat.log2 = 52 := by
        rw [hnat]
        exact (Nat.log2_eq_iff (by omega)).mpr ⟨by omega, by omega⟩
      have hexp : (((unpackExponent b).toNat : Int) - (Format.binary64.exponentBias +
          Format.binary64.mantissaBitsWithoutImplicit) + Format.binary64.exponentBias +
          Format.binary64.mantissaBitsWithoutImplicit).toNat = (unpackExponent b).toNat := by
        omega
      have hfits : (unpackExponent b).toNat + 1 < 2 ^ 11 := by
        have hle : (unpackExponent b).toNat < 2 ^ 11 := (unpackExponent b).isLt
        have hne : (unpackExponent b).toNat ≠ 2 ^ 11 - 1 := fun heq =>
          hinf (BitVec.eq_of_toNat_eq heq)
        omega
      simp only [UnpackedFloat.pack, hexp]
      rw [if_neg (Nat.not_le.mpr hfits), if_pos (by rw [hlog, h53]), hnat, BitVec.ofNat_toNat,
        BitVec.setWidth_eq]
      have hmantissa : BitVec.ofNat Format.binary64.mantissaBitsWithoutImplicit
          (2 ^ 52 + (unpackMantissa b).toNat) = unpackMantissa b := by
        refine BitVec.eq_of_toNat_eq ?_
        rw [BitVec.toNat_ofNat]
        have hmod : (2 ^ 52 + (unpackMantissa b).toNat) % 2 ^ 52 = (unpackMantissa b).toNat := by
          omega
        exact hmod
      rw [hmantissa]
      exact hparts

theorem ofBits_toBits (x : Float) : Float.ofBits x.toBits = x := by
  obtain ⟨⟨bits, valid⟩⟩ := x
  refine congrArg Float.ofModel (Float.Model.mk.injEq _ _ _ _ ▸ ?_)
  exact congrArg UInt64.ofBitVec (pack_unpack_valid valid)

/-- A float is told by its number. -/
theorem number_injective : Function.Injective number := by
  intro x y h
  rw [← ofBits_toBits x, ← ofBits_toBits y]
  exact congrArg (fun u => Float.ofModel (.pack u)) h

theorem finite_ofInt {n : Int} (hn : n ≠ 0) (hlog : n.natAbs.log2 ≤ 52) :
    ∃ hm, number (ofInt n) = .finite (signOf n) (n.natAbs <<< (52 - n.natAbs.log2))
      (n.natAbs.log2 - 52) hm := by
  have habs : n.natAbs ≠ 0 := Int.natAbs_ne_zero.mpr hn
  have hpos : 0 < n.natAbs <<< (52 - n.natAbs.log2) := by
    rw [Nat.shiftLeft_eq]
    positivity
  have hlog' : (n.natAbs <<< (52 - n.natAbs.log2)).log2 = 52 := by
    rw [log2_shiftLeft habs]
    omega
  have htarget := targetExponent_eq (m := n.natAbs) (e := 0) (by omega)
  have hshift : ((0 : Int) - (0 + n.natAbs.log2 - 52)).toNat = 52 - n.natAbs.log2 := by omega
  have hround : UnpackedFloat.ofInt Format.binary64 n =
      .finite (signOf n) (n.natAbs <<< (52 - n.natAbs.log2)) (n.natAbs.log2 - 52) hpos := by
    rw [UnpackedFloat.ofInt, normalize_eq hn]
    simp only [UnpackedFloat.round, decreaseExponent, htarget]
    rw [hshift, roundWithAccuracy_exact (signOf n) hpos hlog' (by omega)]
    congr 1
    omega
  refine ⟨hpos, ?_⟩
  rw [← hround]
  have hnormal : Normal (signOf n) (n.natAbs.log2 - 52) (n.natAbs.log2 - 52)
      (UnpackedFloat.ofInt Format.binary64 n) := ⟨_, _, hpos, hround, hlog', by omega, by omega⟩
  exact hnormal.unpack_pack (by omega) (by omega)

/-- Integers of at most 32 bits are kept as floats. -/
theorem toInt_ofInt {n : Int} (hn : n.natAbs ≤ 2 ^ 31) : toInt (ofInt n) = n := by
  by_cases h0 : n = 0
  · rw [h0, toInt_of_number_zero number_ofInt_zero]
  have habs : n.natAbs ≠ 0 := Int.natAbs_ne_zero.mpr h0
  have hlog : n.natAbs.log2 < 52 := (Nat.log2_lt habs).mpr (by omega)
  obtain ⟨hm, hfinite⟩ := finite_ofInt h0 (Nat.le_of_lt hlog)
  have hshift : ((n.natAbs.log2 : Int) - 52 - 0).toNat = 0 := by omega
  have hback : (0 - ((n.natAbs.log2 : Int) - 52 - ((0 : Nat) : Int))).toNat =
      52 - n.natAbs.log2 := by omega
  have hround : roundToInt (signOf n) (n.natAbs <<< (52 - n.natAbs.log2))
      (n.natAbs.log2 - 52) = n := by
    simp only [roundToInt, decreaseExponent, shiftToExponent, hshift, Nat.shiftLeft_zero]
    rw [mantissa_shiftRight, mantissa_ofMantissaAndAccuracy, hback, Nat.shiftLeft_eq,
      Nat.mul_div_cancel _ (Nat.two_pow_pos _), signOf]
    split
    · simp only [Sign.apply]
      omega
    · simp only [Sign.apply]
      omega
  have hclamp : ∀ k : Int, k.natAbs ≤ 2 ^ 31 → (Int64.ofIntClamp k).toInt = k := by
    intro k hk
    have hmin : Int64.minValue.toInt = -2 ^ 63 := rfl
    have hmax : Int64.maxValue.toInt = 2 ^ 63 - 1 := rfl
    rw [Int64.ofIntClamp, dif_pos (by omega), dif_pos (by omega), Int64.toInt_ofIntLE]
  have htoInt : toInt (ofInt n) = (number (ofInt n)).toInt64.toInt := rfl
  rw [htoInt, hfinite, UnpackedFloat.toInt64, UnpackedFloat.toInt, hround, hclamp n hn]

end Binary64
