-- SUMMARY: Decimal texts: their values, which of them a bounded parser accepts and which are canonical.
import Mathlib.Data.List.Induction
import Mathlib.Tactic.IntervalCases

/-!
# Decimals

A parser for bounded unsigned numbers takes a sign and leading zeros, and the canonical text of
a number has neither.
-/

namespace Decimal

/-- The value of the digits behind a number, while it stays below the bound. -/
def digits (bound : Nat) : Nat → List Char → Option Nat
  | n, [] => some n
  | n, c :: cs =>
    let next := 10 * n + (c.toNat - '0'.toNat)
    if c.isDigit ∧ next < bound then digits bound next cs else none

/-- At least one digit, with or without a plus sign. -/
def parse (bound : Nat) : List Char → Option Nat
  | [] => none
  | '+' :: cs => if cs = [] then none else digits bound 0 cs
  | cs => digits bound 0 cs

/-- A sign, or a zero in front of other digits. -/
def Padded (cs : List Char) : Prop := cs.head? = some '+' ∨ cs.head? = some '0' ∧ cs ≠ ['0']

instance (cs : List Char) : Decidable (Padded cs) := inferInstanceAs (Decidable (_ ∨ _))

-- ---------------------------------------------------------------------------
-- Values
-- ---------------------------------------------------------------------------

theorem le_ofDigitChars (cs : List Char) (n : Nat) : n ≤ Nat.ofDigitChars 10 cs n := by
  induction cs generalizing n with
  | nil => rw [Nat.ofDigitChars_nil]
  | cons c cs ih =>
    rw [Nat.ofDigitChars_cons]
    exact le_trans (by omega) (ih _)

theorem digits_eq_some_iff {bound n m : Nat} {cs : List Char} (hn : n < bound) :
    digits bound n cs = some m ↔
      (∀ c ∈ cs, c.isDigit = true) ∧ Nat.ofDigitChars 10 cs n = m ∧ m < bound := by
  induction cs generalizing n with
  | nil =>
    rw [digits, Nat.ofDigitChars_nil]
    constructor
    · rintro ⟨⟩
      exact ⟨by simp, rfl, hn⟩
    · rintro ⟨-, rfl, -⟩
      rfl
  | cons c cs ih =>
    rw [digits, Nat.ofDigitChars_cons, List.forall_mem_cons]
    split
    · next h => rw [ih h.2, and_iff_right h.1]
    · next h =>
      refine iff_of_false (by simp) ?_
      rintro ⟨⟨hc, -⟩, hval, hm⟩
      have hle := le_ofDigitChars cs (10 * n + (c.toNat - '0'.toNat))
      exact h ⟨hc, by omega⟩

theorem digitChar_toNat {c : Char} (h : c.isDigit = true) :
    c.toNat - '0'.toNat < 10 ∧ Nat.digitChar (c.toNat - '0'.toNat) = c := by
  obtain ⟨hlow, hhigh⟩ := Char.isDigit_iff_toNat.mp h
  have hall : ∀ k : Nat, 48 ≤ k → k ≤ 57 → k - 48 < 10 ∧ Nat.digitChar (k - 48) = Char.ofNat k := by
    intro k hk hk'
    interval_cases k <;> decide
  obtain ⟨hlt, hchar⟩ := hall c.toNat hlow hhigh
  exact ⟨hlt, hchar.trans (Char.ofNat_toNat c)⟩

theorem head?_append_of_ne_nil {cs : List Char} (h : cs ≠ []) (ds : List Char) :
    (cs ++ ds).head? = cs.head? := by
  cases cs with
  | nil => exact absurd rfl h
  | cons c cs => rfl

/-- Digits without a zero in front are those of their value. -/
theorem toDigits_ofDigitChars {cs : List Char} (hne : cs ≠ []) (hdigits : ∀ c ∈ cs, c.isDigit = true)
    (hpadded : ¬ Padded cs) : Nat.toDigits 10 (Nat.ofDigitChars 10 cs 0) = cs := by
  induction cs using List.reverseRecOn with
  | nil => exact absurd rfl hne
  | append_singleton init c ih =>
    obtain ⟨hlt, hchar⟩ := digitChar_toNat (hdigits c (by simp))
    rw [Nat.ofDigitChars_append, Nat.ofDigitChars_cons, Nat.ofDigitChars_nil]
    by_cases hinit : init = []
    · subst hinit
      rw [Nat.ofDigitChars_nil, Nat.mul_zero, Nat.zero_add, Nat.toDigits_of_lt_base hlt, hchar]
      rfl
    · have hhead : (init ++ [c]).head? = init.head? := head?_append_of_ne_nil hinit [c]
      have hlong : init ++ [c] ≠ ['0'] := by
        intro heq
        have hlength := congrArg List.length heq
        have hpos := List.length_pos_iff.mpr hinit
        simp only [List.length_append, List.length_singleton] at hlength
        omega
      have hpadded' : ¬ Padded init := by
        rintro (hplus | ⟨hzero, -⟩)
        · exact hpadded (Or.inl (hhead.trans hplus))
        · exact hpadded (Or.inr ⟨hhead.trans hzero, hlong⟩)
      have hvalue := ih hinit (fun d hd => hdigits d (by simp [hd])) hpadded'
      have hpos : 0 < Nat.ofDigitChars 10 init 0 := by
        rw [Nat.pos_iff_ne_zero]
        intro hzero
        rw [hzero, Nat.toDigits_zero] at hvalue
        exact hpadded (Or.inr ⟨hhead.trans (by rw [← hvalue]; rfl), hlong⟩)
      rw [← Nat.toDigits_append_toDigits (by decide) hpos hlt, hvalue,
        Nat.toDigits_of_lt_base hlt, hchar]

-- ---------------------------------------------------------------------------
-- Canonical texts
-- ---------------------------------------------------------------------------

theorem head?_toDigits_ne_plus (n : Nat) : (Nat.toDigits 10 n).head? ≠ some '+' := by
  intro h
  have hdigit := Nat.isDigit_of_mem_toDigits (by decide) (by decide) (List.mem_of_head? h)
  exact absurd hdigit (by decide)

theorem toDigits_ne_nil (n : Nat) : Nat.toDigits 10 n ≠ [] := by
  rw [Nat.toDigits_eq_if (by decide)]
  split <;> simp

/-- Only the text of zero starts with a zero. -/
theorem head?_toDigits_ne_zero {n : Nat} (hn : 0 < n) : (Nat.toDigits 10 n).head? ≠ some '0' := by
  induction n using Nat.strongRecOn with
  | ind n ih =>
    by_cases hlt : n < 10
    · rw [Nat.toDigits_of_lt_base hlt]
      interval_cases n <;> decide
    · rw [Nat.toDigits_of_base_le (by decide) (by omega),
        head?_append_of_ne_nil (toDigits_ne_nil _)]
      exact ih (n / 10) (by omega) (by omega)

theorem parse_of_head? {bound : Nat} {cs : List Char} (hne : cs ≠ []) (h : cs.head? ≠ some '+') :
    parse bound cs = digits bound 0 cs := by
  cases cs with
  | nil => exact absurd rfl hne
  | cons c cs =>
    rw [parse]
    · rintro ⟨⟩
    · rintro cs' heq
      exact h (congrArg List.head? heq)

/-- The text of a number below the bound is parsed as it. -/
theorem parse_toDigits {bound n : Nat} (h : n < bound) : parse bound (Nat.toDigits 10 n) = some n := by
  rw [parse_of_head? (toDigits_ne_nil n) (head?_toDigits_ne_plus n),
    digits_eq_some_iff (Nat.zero_lt_of_lt h)]
  exact ⟨fun c hc => Nat.isDigit_of_mem_toDigits (by decide) (by decide) hc,
    Nat.ofDigitChars_ten_toDigits, h⟩

/-- A text that is parsed is that of its number, but for a sign and leading zeros. -/
theorem eq_toDigits_iff {bound n : Nat} {cs : List Char} (hbound : 0 < bound)
    (h : parse bound cs = some n) : cs = Nat.toDigits 10 n ↔ ¬ Padded cs := by
  constructor
  · rintro rfl
    rintro (hplus | ⟨hzero, hne⟩)
    · exact head?_toDigits_ne_plus n hplus
    · rcases Nat.eq_zero_or_pos n with rfl | hpos
      · exact hne rfl
      · exact head?_toDigits_ne_zero hpos hzero
  · intro hpadded
    have hne : cs ≠ [] := by
      rintro rfl
      cases h
    rw [parse_of_head? hne fun hplus => hpadded (Or.inl hplus), digits_eq_some_iff hbound] at h
    obtain ⟨hdigits, rfl, -⟩ := h
    exact (toDigits_ofDigitChars hne hdigits hpadded).symm

end Decimal
