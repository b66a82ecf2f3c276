import Mathlib.Tactic
import Mathlib.Data.Nat.Bitwise

/-!
Machine words held as natural numbers: arithmetic modulo `2 ^ 32`, and masks turned into
division and remainder so that `omega` can go on with them.

* `add32`, `sub32`: addition and subtraction of 32-bit words, with `add32_of_lt` and
  `sub32_of_le` where nothing wraps;
* `and_highMask`: clearing the low bits rounds down;
* `and_singleBit`: testing one bit;
* `or_lowBits`: setting low bits that are clear adds them.
-/

namespace Lib

/-- Addition of 32-bit words. -/
def add32 (a b : ℕ) : ℕ := (a + b) % 2 ^ 32

/-- Subtraction of 32-bit words. -/
def sub32 (a b : ℕ) : ℕ := (a + 2 ^ 32 - b) % 2 ^ 32

lemma add32_of_lt {a b : ℕ} (h : a + b < 2 ^ 32) : add32 a b = a + b := Nat.mod_eq_of_lt h

lemma sub32_of_le {a b : ℕ} (h : b ≤ a) (ha : a < 2 ^ 32) : sub32 a b = a - b := by
  rw [sub32]
  omega

variable {n k m b : ℕ}

/-- Clearing the low `k` of `m + k` bits rounds down to a multiple of `2 ^ k`. -/
lemma and_highMask (h : n < 2 ^ (m + k)) : n &&& (2 ^ m - 1) * 2 ^ k = n / 2 ^ k * 2 ^ k := by
  refine Nat.eq_of_testBit_eq fun i => ?_
  rw [Nat.testBit_and, ← Nat.shiftLeft_eq, ← Nat.shiftLeft_eq, Nat.testBit_shiftLeft,
    Nat.testBit_shiftLeft, Nat.testBit_two_pow_sub_one, ← Nat.shiftRight_eq_div_pow,
    Nat.testBit_shiftRight]
  by_cases hk : k ≤ i
  · simp only [ge_iff_le, hk, decide_true, Bool.true_and, Nat.add_sub_cancel' hk]
    by_cases hm : i - k < m
    · simp [hm]
    · have hlarge : n < 2 ^ i := h.trans_le (Nat.pow_le_pow_right (by norm_num) (by omega))
      simp [Nat.testBit_lt_two_pow hlarge]
  · simp [hk]

/-- A single bit of a number. -/
lemma and_singleBit (n k : ℕ) : n &&& 2 ^ k = n / 2 ^ k % 2 * 2 ^ k := by
  rw [Nat.and_two_pow, Nat.testBit_eq_decide_div_mod_eq]
  rcases Nat.mod_two_eq_zero_or_one (n / 2 ^ k) with h | h <;> simp [h]

/-- Setting clear low bits adds them. -/
lemma or_lowBits (h : n % 2 ^ k = 0) (hb : b < 2 ^ k) : n ||| b = n + b := by
  have hn : 2 ^ k * (n / 2 ^ k) = n := Nat.mul_div_cancel' (Nat.dvd_of_mod_eq_zero h)
  rw [← hn, Nat.two_pow_add_eq_or_of_lt hb]

end Lib
