-- SUMMARY: Byte buffers as lists: slices, little-endian words, the bit view of a buffer, and agreement of two buffers past a position.
import Mathlib.Data.List.Basic
import Mathlib.Data.Nat.Bitwise
import Mathlib.Tactic.Ring

/-!
# Byte buffers

A buffer is a `List UInt8`. A slice `[i, j)` is taken with `slice`, a word of
`w` bytes is written with `leBytes w` and read back with `ofLE`, and `bitAt`
gives the bit view in which byte `k` holds the bits `8 * k .. 8 * k + 8`, the
least significant first. Reads past the end see zero bits.
-/

namespace Bytes

-- ---------------------------------------------------------------------------
-- Slices
-- ---------------------------------------------------------------------------

/-- The bytes at positions `i ≤ k < j`, as many of them as the buffer has. -/
def slice (b : List UInt8) (i j : Nat) : List UInt8 := (b.drop i).take (j - i)

/-- The bytes `[i, j)`, when the range is ordered and lies inside the buffer. -/
def get? (b : List UInt8) (i j : Nat) : Option (List UInt8) :=
  if i ≤ j ∧ j ≤ b.length then some (slice b i j) else none

theorem length_slice {b : List UInt8} {i j : Nat} (hj : j ≤ b.length) :
    (slice b i j).length = j - i := by
  simp only [slice, List.length_take, List.length_drop]
  omega

theorem slice_eq_nil {b : List UInt8} {i j : Nat} (h : j ≤ i) : slice b i j = [] := by
  simp [slice, Nat.sub_eq_zero_of_le h]

theorem slice_append_slice {b : List UInt8} {i j k : Nat} (hij : i ≤ j) (hjk : j ≤ k) :
    slice b i j ++ slice b j k = slice b i k := by
  have hsplit : k - i = (j - i) + (k - j) := by omega
  have hdrop : (b.drop i).drop (j - i) = b.drop j := by
    rw [List.drop_drop]; congr 1; omega
  simp only [slice]
  rw [hsplit, List.take_add, hdrop]

theorem slice_length_eq_drop (b : List UInt8) (i : Nat) : slice b i b.length = b.drop i := by
  simp only [slice]
  exact List.take_of_length_le (by simp)

/-- The bytes in the middle of a buffer. -/
theorem slice_append (pre mid suf : List UInt8) :
    slice (pre ++ mid ++ suf) pre.length (pre.length + mid.length) = mid := by
  simp [slice]

theorem slice_append_left {a b : List UInt8} {i j : Nat} (hj : j ≤ a.length) :
    slice (a ++ b) i j = slice a i j := by
  rcases Nat.le_total i a.length with hi | hi
  · simp only [slice]
    rw [List.drop_append_of_le_length hi, List.take_append_of_le_length]
    simp only [List.length_drop]
    omega
  · rw [slice_eq_nil (by omega), slice_eq_nil (by omega)]

theorem slice_append_right (a b : List UInt8) (i j : Nat) :
    slice (a ++ b) (a.length + i) (a.length + j) = slice b i j := by
  simp only [slice, List.drop_append]
  congr 1
  · omega
  · simp

theorem getElem?_slice {b : List UInt8} {i j k : Nat} :
    (slice b i j)[k]? = if k < j - i then b[i + k]? else none := by
  simp [slice, List.getElem?_take]

theorem slice_slice {b : List UInt8} {i j k l : Nat} (h : i + l ≤ j) :
    slice (slice b i j) k l = slice b (i + k) (i + l) := by
  apply List.ext_getElem?
  intro n
  rw [getElem?_slice, getElem?_slice, getElem?_slice, show i + l - (i + k) = l - k by omega,
    Nat.add_assoc]
  by_cases hn : n < l - k
  · rw [if_pos hn, if_pos hn, if_pos (by omega)]
  · rw [if_neg hn, if_neg hn]

/-- Buffers that agree on a range agree on each part of it. -/
theorem slice_eq_of_slice_eq {a b : List UInt8} {i j k l : Nat} (h : slice a i j = slice b i j)
    (hk : i ≤ k) (hl : l ≤ j) : slice a k l = slice b k l := by
  apply List.ext_getElem?
  intro n
  have hn := congrArg (fun s => s[k - i + n]?) h
  simp only [getElem?_slice] at hn ⊢
  have hidx : i + (k - i + n) = k + n := by omega
  rw [hidx] at hn
  split
  · rwa [if_pos (by omega), if_pos (by omega)] at hn
  · rfl

theorem get?_of_le {b : List UInt8} {i j : Nat} (hij : i ≤ j) (hj : j ≤ b.length) :
    get? b i j = some (slice b i j) := if_pos ⟨hij, hj⟩

-- ---------------------------------------------------------------------------
-- Little-endian words
-- ---------------------------------------------------------------------------

/-- The natural with the given little-endian bytes. -/
def ofLE : List UInt8 → Nat
  | [] => 0
  | b :: bs => b.toNat + 256 * ofLE bs

/-- The `w` little-endian bytes of `n`; higher bytes are dropped. -/
def leBytes : Nat → Nat → List UInt8
  | 0, _ => []
  | w + 1, n => UInt8.ofNat (n % 256) :: leBytes w (n / 256)

@[simp] theorem length_leBytes (w n : Nat) : (leBytes w n).length = w := by
  induction w generalizing n with
  | zero => rfl
  | succ w ih => simp [leBytes, ih]

theorem ofLE_lt (l : List UInt8) : ofLE l < 256 ^ l.length := by
  induction l with
  | nil => simp [ofLE]
  | cons b bs ih =>
    have hb : b.toNat < 256 := b.toNat_lt
    rw [ofLE, List.length_cons, Nat.pow_succ]
    omega

theorem leBytes_ofLE (l : List UInt8) : leBytes l.length (ofLE l) = l := by
  induction l with
  | nil => rfl
  | cons b bs ih =>
    have hb : b.toNat < 256 := b.toNat_lt
    have hmod : (b.toNat + 256 * ofLE bs) % 256 = b.toNat := by omega
    have hdiv : (b.toNat + 256 * ofLE bs) / 256 = ofLE bs := by omega
    rw [List.length_cons, leBytes, ofLE, hmod, hdiv, ih, UInt8.ofNat_toNat]

theorem ofLE_leBytes (w n : Nat) : ofLE (leBytes w n) = n % 256 ^ w := by
  induction w generalizing n with
  | zero => rw [leBytes, ofLE, Nat.pow_zero, Nat.mod_one]
  | succ w ih =>
    have hbyte : (UInt8.ofNat (n % 256)).toNat = n % 256 := by
      rw [UInt8.toNat_ofNat', Nat.mod_mod]
    rw [leBytes, ofLE, hbyte, ih, Nat.pow_succ, Nat.mul_comm (256 ^ w), Nat.mod_mul]

/-- The word of `w` bytes at position `off`, written back, is those bytes. -/
theorem leBytes_slice {b : List UInt8} {off w : Nat} (h : off + w ≤ b.length) :
    leBytes w (ofLE (slice b off (off + w))) = slice b off (off + w) := by
  have hlen : (slice b off (off + w)).length = w := by
    rw [length_slice h]; omega
  have := leBytes_ofLE (slice b off (off + w))
  rwa [hlen] at this

-- ---------------------------------------------------------------------------
-- The bit view
-- ---------------------------------------------------------------------------

/-- Bit `i` of a buffer, least significant bit of each byte first. -/
def bitAt (b : List UInt8) (i : Nat) : Bool := (b.getD (i / 8) 0).toNat.testBit (i % 8)

theorem bitAt_of_length_le {b : List UInt8} {i : Nat} (h : b.length ≤ i / 8) :
    bitAt b i = false := by
  simp [bitAt, List.getElem?_eq_none h]

theorem bitAt_replicate_zero (n i : Nat) : bitAt (List.replicate n 0) i = false := by
  simp only [bitAt, List.getD_eq_getElem?_getD, List.getElem?_replicate]
  split <;> simp

theorem bitAt_set {b : List UInt8} {k i : Nat} {v : UInt8} (hk : k < b.length) :
    bitAt (b.set k v) i = if i / 8 = k then v.toNat.testBit (i % 8) else bitAt b i := by
  simp only [bitAt, List.getD_eq_getElem?_getD, List.getElem?_set]
  by_cases h : k = i / 8
  · subst h
    simp [hk]
  · have h' : ¬ i / 8 = k := fun heq => h heq.symm
    simp [h, h']

private theorem testBit_toNat_of_le {v : UInt8} {i : Nat} (h : 8 ≤ i) :
    v.toNat.testBit i = false := by
  apply Nat.testBit_lt_two_pow
  calc v.toNat < 2 ^ 8 := v.toNat_lt
    _ ≤ 2 ^ i := Nat.pow_le_pow_right (by decide) h

/-- The bits of a little-endian word are the bits of its bytes. -/
theorem testBit_ofLE (l : List UInt8) (i : Nat) : (ofLE l).testBit i = bitAt l i := by
  induction l generalizing i with
  | nil => simp [ofLE, bitAt]
  | cons b bs ih =>
    have hlt : b.toNat < 2 ^ 8 := b.toNat_lt
    have hword : ofLE (b :: bs) = 2 ^ 8 * ofLE bs + b.toNat := by
      rw [ofLE]
      omega
    rw [hword, Nat.testBit_two_pow_mul_add _ hlt]
    by_cases hi : i < 8
    · have hdiv : i / 8 = 0 := by omega
      have hmod : i % 8 = i := by omega
      simp [hi, bitAt, hdiv, hmod]
    · have hdiv : i / 8 = (i - 8) / 8 + 1 := by omega
      have hmod : i % 8 = (i - 8) % 8 := by omega
      simp [hi, bitAt, ih, hdiv, hmod]

/-- Two buffers of one length with the same bits are equal. -/
theorem ext_bitAt {a b : List UInt8} (hlen : a.length = b.length)
    (h : ∀ i, i < 8 * a.length → bitAt a i = bitAt b i) : a = b := by
  apply List.ext_getElem hlen
  intro k hka hkb
  apply UInt8.toNat_inj.mp
  apply Nat.eq_of_testBit_eq
  intro i
  by_cases hi : i < 8
  · have hbit := h (8 * k + i) (by omega)
    have hdiv : (8 * k + i) / 8 = k := by omega
    have hmod : (8 * k + i) % 8 = i := by omega
    simpa [bitAt, hdiv, hmod, List.getD_eq_getElem, hka, hkb] using hbit
  · rw [testBit_toNat_of_le (by omega), testBit_toNat_of_le (by omega)]

-- ---------------------------------------------------------------------------
-- Overwriting a word
-- ---------------------------------------------------------------------------

/-- The buffer with the bytes `w` in the place of its own from `off` on. -/
def splice (b : List UInt8) (off : Nat) (w : List UInt8) : List UInt8 :=
  b.take off ++ w ++ b.drop (off + w.length)

theorem length_splice {b w : List UInt8} {off : Nat} (h : off + w.length ≤ b.length) :
    (splice b off w).length = b.length := by
  simp only [splice, List.length_append, List.length_take, List.length_drop]
  omega

theorem getElem?_splice {b w : List UInt8} {off i : Nat} (h : off + w.length ≤ b.length) :
    (splice b off w)[i]? = if off ≤ i ∧ i < off + w.length then w[i - off]? else b[i]? := by
  have htake : (b.take off).length = off := by
    rw [List.length_take]
    omega
  simp only [splice, List.append_assoc]
  by_cases hlo : off ≤ i
  · rw [List.getElem?_append_right (by omega), htake]
    by_cases hhi : i < off + w.length
    · rw [List.getElem?_append_left (by omega), if_pos ⟨hlo, hhi⟩]
    · rw [List.getElem?_append_right (by omega), List.getElem?_drop, if_neg (by omega)]
      congr 1
      omega
  · rw [List.getElem?_append_left (by omega), List.getElem?_take, if_pos (by omega),
      if_neg (by omega)]

/-- Past the overwritten bytes the two buffers agree. -/
theorem drop_splice {b w : List UInt8} {off n : Nat} (h : off + w.length ≤ b.length)
    (hn : off + w.length ≤ n) : (splice b off w).drop n = b.drop n := by
  apply List.ext_getElem?
  intro i
  rw [List.getElem?_drop, List.getElem?_drop, getElem?_splice h, if_neg (by omega)]

/-- A slice beside the overwritten bytes is the same. -/
theorem slice_splice {b w : List UInt8} {off i j : Nat} (h : off + w.length ≤ b.length)
    (hij : j ≤ off ∨ off + w.length ≤ i) : slice (splice b off w) i j = slice b i j := by
  apply List.ext_getElem?
  intro k
  rw [getElem?_slice, getElem?_slice, getElem?_splice h]
  split
  · rw [if_neg (by omega)]
  · rfl

/-- The overwritten bytes. -/
theorem slice_splice_self {b w : List UInt8} {off : Nat} (h : off + w.length ≤ b.length) :
    slice (splice b off w) off (off + w.length) = w := by
  apply List.ext_getElem?
  intro k
  rw [getElem?_slice, getElem?_splice h]
  split
  · rw [if_pos (by omega)]
    congr 1
    omega
  · rw [List.getElem?_eq_none (by omega)]

/-- Overwriting bytes by themselves changes nothing. -/
theorem splice_slice {b : List UInt8} {i j : Nat} (hij : i ≤ j) (hj : j ≤ b.length) :
    splice b i (slice b i j) = b := by
  have hlen : (slice b i j).length = j - i := length_slice hj
  apply List.ext_getElem?
  intro k
  rw [getElem?_splice (by omega), getElem?_slice]
  split
  · rename_i hk
    rw [if_pos (by omega)]
    congr 1
    omega
  · rfl

-- ---------------------------------------------------------------------------
-- Agreement past a position
-- ---------------------------------------------------------------------------

/-- Two buffers of one length that hold the same bytes from position `n` on. -/
structure AgreeFrom (n : Nat) (a b : List UInt8) : Prop where
  length_eq : a.length = b.length
  drop_eq : a.drop n = b.drop n

namespace AgreeFrom

variable {n : Nat} {a b : List UInt8}

theorem refl (n : Nat) (a : List UInt8) : AgreeFrom n a a := ⟨rfl, rfl⟩

theorem symm (h : AgreeFrom n a b) : AgreeFrom n b a := ⟨h.1.symm, h.2.symm⟩

theorem drop (h : AgreeFrom n a b) {i : Nat} (hi : n ≤ i) : a.drop i = b.drop i := by
  have hsplit : i = n + (i - n) := by omega
  rw [hsplit, ← List.drop_drop, ← List.drop_drop, h.drop_eq]

theorem slice_eq (h : AgreeFrom n a b) {i j : Nat} (hi : n ≤ i) :
    slice a i j = slice b i j := by
  simp only [slice, h.drop hi]

theorem get?_eq (h : AgreeFrom n a b) {i j : Nat} (hi : n ≤ i) : get? a i j = get? b i j := by
  simp only [get?, h.length_eq, h.slice_eq hi]

theorem getElem?_eq (h : AgreeFrom n a b) {i : Nat} (hi : n ≤ i) : a[i]? = b[i]? := by
  have hd := congrArg (fun l => l[0]?) (h.drop hi)
  simpa using hd

end AgreeFrom

-- ---------------------------------------------------------------------------
-- Agreement on a range
-- ---------------------------------------------------------------------------

/-- Two buffers of one length that hold the same bytes from `m` up to `n`. -/
structure AgreeOn (m n : Nat) (a b : List UInt8) : Prop where
  length_eq : a.length = b.length
  getElem?_eq : ∀ p, m ≤ p → p < n → a[p]? = b[p]?

namespace AgreeOn

variable {m n : Nat} {a b : List UInt8}

theorem mono (h : AgreeOn m n a b) {m' n' : Nat} (hm : m ≤ m') (hn : n' ≤ n) :
    AgreeOn m' n' a b :=
  ⟨h.length_eq, fun p hlo hhi => h.getElem?_eq p (hm.trans hlo) (Nat.lt_of_lt_of_le hhi hn)⟩

theorem slice_eq (h : AgreeOn m n a b) : slice a m n = slice b m n := by
  apply List.ext_getElem?
  intro k
  simp only [slice, List.getElem?_take, List.getElem?_drop]
  split
  · exact h.getElem?_eq _ (by omega) (by omega)
  · rfl

theorem get?_eq (h : AgreeOn m n a b) : get? a m n = get? b m n := by
  simp only [get?, h.length_eq, h.slice_eq]

end AgreeOn

end Bytes
