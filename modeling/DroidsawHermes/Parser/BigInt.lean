-- SUMMARY: The decimal rendering of big integers, with every intermediate value checked against its type, and its exactness.
import DroidsawHermes.Lib.Bytes
import Mathlib.Algebra.Order.Group.Int
import Mathlib.Data.List.DropRight
import Mathlib.Data.Nat.Digits.Lemmas

/-!
# Big integers

`bigint_le_twos_to_decimal` of `parser/mod.rs`: a little-endian two's-complement
slice to the decimal numeral of its value. The arithmetic is checked here; a value
that does not fit the type it is stored in ends the run with `none`.
-/

open Bytes

namespace Hermes

/-! ## The function -/

/-- A value stored in an unsigned integer of `w` bits. -/
def store (w n : Nat) : Option Nat := if n < 2 ^ w then some n else none

/-- The loop that adds the carry to the inverted bytes: `u16` sums, `u8` results. -/
def addCarry : List UInt8 → Nat → Option (List UInt8)
  | [], _ => some []
  | b :: bs, carry => do
    let s ← store 16 (b.toNat + carry)
    let byte ← store 8 (s &&& 0xFF)
    let rest ← addCarry bs (s >>> 8)
    some (UInt8.ofNat byte :: rest)

/-- The magnitude of a negative slice. -/
def negate (bytes : List UInt8) : Option (List UInt8) := addCarry (bytes.map (~~~ ·)) 1

/-- `digits = digits * 256 + carry`, digit by digit in `u32`: the digits, and the carry
that is left. -/
def scaleDigits : List Nat → Nat → Option (List Nat × Nat)
  | [], carry => some ([], carry)
  | d :: ds, carry => do
    let v ← store 32 (d * 256 + carry)
    let digit ← store 8 (v % 10)
    let (rest, left) ← scaleDigits ds (v / 10)
    some (digit :: rest, left)

/-- `while carry > 0 { digits.push(carry % 10); carry /= 10 }`. A fuel of `carry` never
runs out. -/
def carryDigits : Nat → Nat → Option (List Nat)
  | 0, _ => some []
  | fuel + 1, carry =>
    if carry > 0 then do
      let digit ← store 8 (carry % 10)
      let rest ← carryDigits fuel (carry / 10)
      some (digit :: rest)
    else some []

/-- One byte of the magnitude. -/
def consumeByte (digits : List Nat) (byte : UInt8) : Option (List Nat) := do
  let (scaled, left) ← scaleDigits digits byte.toNat
  let pushed ← carryDigits left left
  some (scaled ++ pushed)

/-- `(b'0' + d) as char`. -/
def renderDigit (d : Nat) : Option Char := (store 8 (48 + d)).map Char.ofNat

/-- The numeral of a magnitude: zero bytes are stripped, the digits are accumulated from
the highest byte on, and rendered. -/
def renderMagnitude (isNegative : Bool) (full : List UInt8) : Option String :=
  let mag := full.rdropWhile (· = 0)
  if mag = [] then some "0"
  else do
    let digits ← mag.reverse.foldlM consumeByte [0]
    let chars ← digits.reverse.mapM renderDigit
    some (String.ofList ((if isNegative then ['-'] else []) ++ chars))

def bigintLeTwosToDecimal (bytes : List UInt8) : Option String :=
  match bytes.getLast? with
  | none => some "0"
  | some msb =>
    if msb &&& 0x80 ≠ 0 then negate bytes >>= renderMagnitude true
    else renderMagnitude false bytes

/-- The integer of a slice, in two's complement of its own width. -/
def twosComplement (bytes : List UInt8) : Int :=
  if 2 * ofLE bytes < 256 ^ bytes.length then ofLE bytes else ofLE bytes - 256 ^ bytes.length

/-! ## The magnitude -/

theorem store_of_lt {w n : Nat} (h : n < 2 ^ w) : store w n = some n := if_pos h

theorem addCarry_eq (bs : List UInt8) :
    ∀ {carry : Nat}, carry ≤ 1 → ∃ out, addCarry bs carry = some out ∧
      out.length = bs.length ∧ ofLE out = (ofLE bs + carry) % 256 ^ bs.length := by
  induction bs with
  | nil =>
    intro carry _
    exact ⟨[], rfl, rfl, by simp [ofLE, Nat.mod_one]⟩
  | cons b bs ih =>
    intro carry hcarry
    have hb : b.toNat < 256 := b.toNat_lt
    have hlow : (b.toNat + carry) &&& 0xFF = (b.toNat + carry) % 256 :=
      Nat.and_two_pow_sub_one_eq_mod _ 8
    have hhigh : (b.toNat + carry) >>> 8 = (b.toNat + carry) / 256 :=
      Nat.shiftRight_eq_div_pow _ 8
    obtain ⟨out, hout, hlen, hval⟩ := ih (show (b.toNat + carry) / 256 ≤ 1 by omega)
    refine ⟨UInt8.ofNat ((b.toNat + carry) % 256) :: out, ?_, by simp [hlen], ?_⟩
    · rw [addCarry, store_of_lt (by omega), Option.bind_eq_bind, Option.bind_some, hlow, hhigh,
        store_of_lt (by omega), Option.bind_eq_bind, Option.bind_some, hout]
      rfl
    · have hbyte : (UInt8.ofNat ((b.toNat + carry) % 256)).toNat = (b.toNat + carry) % 256 := by
        rw [UInt8.toNat_ofNat', Nat.mod_mod]
      have hsum : ofLE (b :: bs) + carry =
          (b.toNat + carry) % 256 + 256 * (ofLE bs + (b.toNat + carry) / 256) := by
        rw [ofLE]
        omega
      rw [ofLE, hbyte, hval, hsum, List.length_cons, Nat.pow_succ, Nat.mul_comm (256 ^ _),
        Nat.mod_mul]
      congr 1
      · omega
      · congr 2
        omega

theorem ofLE_map_not (bs : List UInt8) :
    ofLE (bs.map (~~~ ·)) + ofLE bs + 1 = 256 ^ bs.length := by
  induction bs with
  | nil => rfl
  | cons b bs ih =>
    have hnot : (~~~ b).toNat = 255 - b.toNat := by
      simp only [UInt8.toNat_not, UInt8.size]
    have hb : b.toNat < 256 := b.toNat_lt
    rw [List.map_cons, ofLE, ofLE, hnot, List.length_cons, Nat.pow_succ]
    omega

/-- The magnitude of a slice that is not zero. -/
theorem negate_eq {bytes : List UInt8} (h : 0 < ofLE bytes) :
    ∃ out, negate bytes = some out ∧ ofLE out = 256 ^ bytes.length - ofLE bytes := by
  obtain ⟨out, hout, -, hval⟩ := addCarry_eq (bytes.map (~~~ ·)) (Nat.le_refl 1)
  have hnot := ofLE_map_not bytes
  refine ⟨out, hout, ?_⟩
  rw [hval, List.length_map, Nat.mod_eq_of_lt (by omega)]
  omega

theorem ofLE_append (a b : List UInt8) : ofLE (a ++ b) = ofLE a + 256 ^ a.length * ofLE b := by
  induction a with
  | nil => simp [ofLE]
  | cons x a ih =>
    rw [List.cons_append, ofLE, ofLE, ih, List.length_cons, Nat.pow_succ]
    ring

/-- Zero bytes at the high end do not count. -/
theorem ofLE_rdropWhile (bytes : List UInt8) : ofLE (bytes.rdropWhile (· = 0)) = ofLE bytes := by
  induction bytes using List.reverseRecOn with
  | nil => rfl
  | append_singleton bytes b ih =>
    by_cases hb : b = 0
    · subst hb
      rw [List.rdropWhile_concat_pos _ _ _ (by decide), ih, ofLE_append]
      simp [ofLE]
    · rw [List.rdropWhile_concat_neg _ _ _ (by simpa using hb)]

/-- The sign bit. -/
theorem sign_iff (init : List UInt8) (msb : UInt8) :
    msb &&& 0x80 ≠ 0 ↔ ¬ 2 * ofLE (init ++ [msb]) < 256 ^ (init ++ [msb]).length := by
  have hbit : ∀ n : Fin 256, UInt8.ofNat n &&& 0x80 ≠ 0 ↔ 128 ≤ n.val := by decide +kernel
  have hmsb : msb &&& 0x80 ≠ 0 ↔ 128 ≤ msb.toNat := by
    have := hbit ⟨msb.toNat, msb.toNat_lt⟩
    rwa [UInt8.ofNat_toNat] at this
  have hinit := ofLE_lt init
  rw [hmsb, ofLE_append, List.length_append, List.length_singleton, Nat.pow_succ]
  simp only [ofLE, Nat.mul_zero, Nat.add_zero]
  generalize 256 ^ init.length = m at hinit
  constructor
  · intro h
    have : m * 128 ≤ m * msb.toNat := Nat.mul_le_mul_left m h
    omega
  · intro h
    by_contra hlt
    have : m * msb.toNat ≤ m * 127 := Nat.mul_le_mul_left m (by omega)
    omega

/-! ## The digits -/

/-- The pushed digits are the digits of the carry. -/
theorem carryDigits_eq {fuel carry : Nat} (h : carry ≤ fuel) :
    carryDigits fuel carry = some (Nat.digits 10 carry) := by
  induction fuel generalizing carry with
  | zero =>
    rw [Nat.le_zero.mp h]
    rfl
  | succ fuel ih =>
    rw [carryDigits]
    by_cases hpos : 0 < carry
    · rw [if_pos hpos, store_of_lt (by omega), Option.bind_eq_bind, Option.bind_some,
        ih (by omega), Option.bind_eq_bind, Option.bind_some, Nat.digits_def' (by decide) hpos]
    · rw [if_neg hpos, Nat.eq_zero_of_not_pos hpos, Nat.digits_zero]

/-- The digits of `n`, scaled: with the digits of the carry that is left they are those
of `n * 256 + carry`, and no `u32` overflows. -/
theorem scaleDigits_eq (n : Nat) :
    ∀ {carry : Nat}, carry ≤ 255 → ∃ ds left, scaleDigits (Nat.digits 10 n) carry = some (ds, left) ∧
      ds ++ Nat.digits 10 left = Nat.digits 10 (n * 256 + carry) := by
  induction n using Nat.strongRecOn with
  | ind n ih =>
    intro carry hcarry
    rcases Nat.eq_zero_or_pos n with rfl | hpos
    · exact ⟨[], carry, by rw [Nat.digits_zero, scaleDigits], by rw [Nat.zero_mul, Nat.zero_add]; rfl⟩
    · have hdigit := Nat.mod_lt n (show 10 > 0 by decide)
      obtain ⟨ds, left, hrun, hval⟩ := ih (n / 10) (Nat.div_lt_self hpos (by decide))
        (show (n % 10 * 256 + carry) / 10 ≤ 255 by omega)
      refine ⟨(n % 10 * 256 + carry) % 10 :: ds, left, ?_, ?_⟩
      · rw [Nat.digits_def' (by decide) hpos, scaleDigits, store_of_lt (by omega),
          Option.bind_eq_bind, Option.bind_some, store_of_lt (by omega), Option.bind_eq_bind,
          Option.bind_some, hrun]
        rfl
      · have hmod : (n * 256 + carry) % 10 = (n % 10 * 256 + carry) % 10 := by omega
        have hdiv : (n * 256 + carry) / 10 = n / 10 * 256 + (n % 10 * 256 + carry) / 10 := by omega
        rw [Nat.digits_def' (by decide) (show 0 < n * 256 + carry by omega), hmod, hdiv,
          List.cons_append, hval]

theorem consumeByte_eq (n : Nat) (byte : UInt8) :
    consumeByte (Nat.digits 10 n) byte = some (Nat.digits 10 (n * 256 + byte.toNat)) := by
  have hbyte : byte.toNat < 256 := byte.toNat_lt
  obtain ⟨ds, left, hrun, hval⟩ := scaleDigits_eq n (show byte.toNat ≤ 255 by omega)
  simp only [consumeByte, hrun, Option.bind_eq_bind, Option.bind_some,
    carryDigits_eq (Nat.le_refl left), hval]

/-- The first byte: the accumulator starts with the digit zero. -/
theorem consumeByte_zero {byte : UInt8} (h : byte ≠ 0) :
    consumeByte [0] byte = some (Nat.digits 10 byte.toNat) := by
  have hbyte : byte.toNat < 256 := byte.toNat_lt
  have hpos : 0 < byte.toNat := by
    refine Nat.pos_of_ne_zero fun hzero => h ?_
    exact UInt8.toNat_inj.mp hzero
  have hscale : scaleDigits [0] byte.toNat = some ([byte.toNat % 10], byte.toNat / 10) := by
    simp only [scaleDigits, Nat.zero_mul, Nat.zero_add, store_of_lt (show byte.toNat < 2 ^ 32 by omega),
      store_of_lt (show byte.toNat % 10 < 2 ^ 8 by omega), Option.bind_eq_bind, Option.bind_some]
  simp only [consumeByte, hscale, Option.bind_eq_bind, Option.bind_some,
    carryDigits_eq (Nat.le_refl (byte.toNat / 10))]
  rw [Nat.digits_def' (by decide) hpos]
  rfl

theorem foldlM_consumeByte (bytes : List UInt8) :
    ∀ n, bytes.foldlM consumeByte (Nat.digits 10 n) =
      some (Nat.digits 10 (n * 256 ^ bytes.length + ofLE bytes.reverse)) := by
  induction bytes with
  | nil =>
    intro n
    simp [ofLE]
  | cons b bytes ih =>
    intro n
    rw [List.foldlM_cons, consumeByte_eq, Option.bind_eq_bind, Option.bind_some, ih,
      List.reverse_cons, ofLE_append, List.length_reverse, List.length_cons, Nat.pow_succ]
    congr 2
    simp only [ofLE]
    ring

/-- The digits of the magnitude. -/
theorem foldlM_mag {mag : List UInt8} (h : ∀ b ∈ mag.getLast?, b ≠ 0) (hne : mag ≠ []) :
    mag.reverse.foldlM consumeByte [0] = some (Nat.digits 10 (ofLE mag)) := by
  induction mag using List.reverseRecOn with
  | nil => exact absurd rfl hne
  | append_singleton mag b _ =>
    have hb : b ≠ 0 := h b (by simp)
    rw [List.reverse_append, List.reverse_singleton, List.singleton_append, List.foldlM_cons,
      consumeByte_zero hb, Option.bind_eq_bind, Option.bind_some, foldlM_consumeByte,
      List.reverse_reverse, List.length_reverse, ofLE_append]
    congr 2
    simp only [ofLE]
    ring

/-! ## The numeral -/

theorem renderDigit_eq {d : Nat} (h : d < 10) : renderDigit d = some d.digitChar := by
  have hall : ∀ k : Fin 10, renderDigit k = some (k.val.digitChar) := by decide
  exact hall ⟨d, h⟩

/-- The rendered digits are the numeral. -/
theorem mapM_renderDigit (n : Nat) (h : n ≠ 0) :
    (Nat.digits 10 n).reverse.mapM renderDigit = some (Nat.toDigits 10 n) := by
  induction n using Nat.strongRecOn with
  | ind n ih =>
    have hpos := Nat.pos_of_ne_zero h
    have hdigit := renderDigit_eq (Nat.mod_lt n (show 10 > 0 by decide))
    rw [Nat.digits_def' (by decide) hpos, List.reverse_cons, List.mapM_append]
    simp only [List.mapM_cons, List.mapM_nil, hdigit, Option.bind_eq_bind, Option.bind_some]
    rw [Nat.toDigits_eq_if (by decide)]
    by_cases hlt : n < 10
    · rw [if_pos hlt, Nat.div_eq_of_lt hlt, Nat.mod_eq_of_lt hlt]
      rfl
    · rw [if_neg hlt, ih (n / 10) (by omega) (by omega)]
      rfl

theorem renderMagnitude_zero {isNegative : Bool} {full : List UInt8} (h : ofLE full = 0) :
    renderMagnitude isNegative full = some "0" := by
  have hmag : full.rdropWhile (· = 0) = [] := by
    by_contra hne
    have hlast := List.rdropWhile_last_not (· = 0) full hne
    have hval := ofLE_rdropWhile full
    rw [h, ← List.dropLast_append_getLast hne, ofLE_append, Nat.add_eq_zero_iff] at hval
    have hzero : ((full.rdropWhile (· = 0)).getLast hne).toNat = 0 := by
      simpa [ofLE] using hval.2
    exact hlast (by simpa using UInt8.toNat_inj.mp hzero)
  rw [renderMagnitude, hmag]
  rfl

theorem renderMagnitude_pos {isNegative : Bool} {full : List UInt8} (h : ofLE full ≠ 0) :
    renderMagnitude isNegative full =
      some (String.ofList ((if isNegative then ['-'] else []) ++ Nat.toDigits 10 (ofLE full))) := by
  have hval := ofLE_rdropWhile full
  have hne : full.rdropWhile (· = 0) ≠ [] := by
    intro hnil
    rw [hnil] at hval
    exact h hval.symm
  have hlast : ∀ b ∈ (full.rdropWhile (· = 0)).getLast?, b ≠ 0 := by
    intro b hb
    rw [List.getLast?_eq_some_getLast hne, Option.mem_some_iff] at hb
    have := List.rdropWhile_last_not (· = 0) full hne
    rw [← hb]
    simpa using this
  simp only [renderMagnitude, if_neg hne, foldlM_mag hlast hne, hval, Option.bind_eq_bind,
    Option.bind_some, mapM_renderDigit _ h]

/-- The rendering is the canonical decimal numeral of the integer, and no intermediate
value leaves its type. -/
theorem bigintLeTwosToDecimal_exact (bytes : List UInt8) :
    bigintLeTwosToDecimal bytes = some (toString (twosComplement bytes)) := by
  induction bytes using List.reverseRecOn with
  | nil => rfl
  | append_singleton init msb _ =>
    have hsign := sign_iff init msb
    have hlast : (init ++ [msb]).getLast? = some msb := List.getLast?_concat
    generalize init ++ [msb] = bytes at hsign hlast
    have hbound := ofLE_lt bytes
    simp only [bigintLeTwosToDecimal, hlast]
    by_cases hneg : msb &&& 0x80 ≠ 0
    · have hnot := hsign.mp hneg
      obtain ⟨full, hfull, hval⟩ := @negate_eq bytes (by omega)
      obtain ⟨k, hk⟩ : ∃ k, 256 ^ bytes.length - ofLE bytes = k + 1 :=
        ⟨256 ^ bytes.length - ofLE bytes - 1, by omega⟩
      have hint : twosComplement bytes = Int.negSucc k := by
        rw [twosComplement, if_neg hnot, Int.negSucc_eq]
        have hcast : ((256 ^ bytes.length : Nat) : Int) = 256 ^ bytes.length := by norm_cast
        omega
      rw [if_pos hneg, hfull, Option.bind_eq_bind, Option.bind_some,
        renderMagnitude_pos (by omega), hval, hk, hint]
      have hrepr : toString (Int.negSucc k) = "-" ++ Nat.repr (k + 1) := rfl
      rw [hrepr, Nat.repr_eq_ofList_toDigits, ← String.ofList_toList (s := "-"), ← String.ofList_append]
      rfl
    · have hlt := not_not.mp (fun h => hneg (hsign.mpr h))
      have hint : twosComplement bytes = Int.ofNat (ofLE bytes) := by
        rw [twosComplement, if_pos hlt]
        rfl
      rw [if_neg hneg, hint]
      by_cases hzero : ofLE bytes = 0
      · rw [renderMagnitude_zero hzero, hzero]
        rfl
      · rw [renderMagnitude_pos hzero]
        rfl

end Hermes
