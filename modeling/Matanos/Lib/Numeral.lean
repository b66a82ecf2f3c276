import Mathlib.Tactic
import Mathlib.Data.Nat.Digits.Lemmas

/-!
Positional numerals over any alphabet, the most significant digit first.

* `numeral`: the numeral of a number; `numeral_of_lt`, `numeral_of_le`: one digit, and one more digit
  behind a numeral;
* `readNumeral`: the number that a list of glyphs stands for; `read_numeral`: the numeral is read back;
* `Canonical`: at least one glyph, digits only, and no superfluous zero in front; `canonical_numeral`;
* `scanNumeral`: the number in front of a text; `scan_numeral`: zeros and a numeral in front are read.
-/

namespace Lib

variable {γ : Type*}

/-- The digits above the last one, then the last one. -/
def numeral (b : ℕ) (glyph : ℕ → γ) (n : ℕ) : List γ :=
  (Nat.digits b (n / b)).reverse.map glyph ++ [glyph (n % b)]

/-- The number that the glyphs stand for, if all of them are digits. -/
def readNumeral (b : ℕ) (value : γ → Option ℕ) (l : List γ) : Option ℕ :=
  l.foldl (fun acc c => acc.bind fun n => (value c).map fun d => n * b + d) (some 0)

/-- Digits only, at least one, and the first of several is not zero. -/
structure Canonical (value : γ → Option ℕ) (l : List γ) : Prop where
  ne_nil : l ≠ []
  digits : ∀ c ∈ l, (value c).isSome
  leading : ∀ c, l.head? = some c → value c = some 0 → l = [c]

/-- The number that the digits in front of a text continue, and the text behind them. -/
def scanNumeral (b : ℕ) (value : γ → Option ℕ) : ℕ → List γ → ℕ × List γ
  | n, [] => (n, [])
  | n, c :: l =>
      match value c with
      | some d => scanNumeral b value (n * b + d) l
      | none => (n, c :: l)

variable {b n : ℕ} {glyph : ℕ → γ} {value : γ → Option ℕ} {l : List γ}

/-- A number below the base has one digit. -/
lemma numeral_of_lt (hn : n < b) : numeral b glyph n = [glyph n] := by
  rw [numeral, Nat.div_eq_of_lt hn, Nat.mod_eq_of_lt hn, Nat.digits_zero]
  rfl

/-- The last digit stands behind the numeral of the quotient. -/
lemma numeral_of_le (hb : 1 < b) (hn : b ≤ n) :
    numeral b glyph n = numeral b glyph (n / b) ++ [glyph (n % b)] := by
  have hpos : 0 < n / b := Nat.div_pos hn (by omega)
  rw [numeral, numeral, Nat.digits_def' hb hpos, List.reverse_cons, List.map_append,
    List.map_singleton]

/-- Numerals by their last digit. -/
lemma numeral_induction (hb : 1 < b) {P : ℕ → Prop} (one : ∀ n < b, P n)
    (more : ∀ n, b ≤ n → P (n / b) → P n) : P n := by
  induction n using Nat.strong_induction_on with
  | _ n ih =>
      rcases Nat.lt_or_ge n b with hlt | hle
      · exact one n hlt
      · exact more n hle (ih _ (Nat.div_lt_self (by omega) hb))

lemma length_numeral_le (hb : 1 < b) : (numeral b glyph n).length ≤ n / b + 1 := by
  refine numeral_induction (P := fun n => (numeral b glyph n).length ≤ n / b + 1) hb (fun n hn => ?_)
    fun n hn ih => ?_
  · rw [numeral_of_lt hn, List.length_singleton]
    exact Nat.le_add_left _ _
  · have hpos : 0 < n / b := Nat.div_pos hn (by omega)
    have hlt : n / b / b < n / b := Nat.div_lt_self hpos hb
    rw [numeral_of_le hb hn, List.length_append, List.length_singleton]
    omega

/-- What is no number does not become one. -/
lemma foldl_none (l : List γ) :
    l.foldl (fun acc c => acc.bind fun n => (value c).map fun d => n * b + d) none = none := by
  induction l with
  | nil => rfl
  | cons c l ih => exact ih

lemma readNumeral_append_singleton (c : γ) :
    readNumeral b value (l ++ [c])
      = (readNumeral b value l).bind fun n => (value c).map fun d => n * b + d := by
  rw [readNumeral, List.foldl_append]
  rfl

/-- Digits are read from the number so far. -/
lemma scanNumeral_append {m : ℕ} {rest : List γ}
    (h : l.foldl (fun acc c => acc.bind fun n => (value c).map fun d => n * b + d) (some n) = some m) :
    scanNumeral b value n (l ++ rest) = scanNumeral b value m rest := by
  induction l generalizing n with
  | nil =>
      obtain rfl : n = m := Option.some.inj h
      rfl
  | cons c l ih =>
      rw [List.foldl_cons, Option.bind_some] at h
      rw [List.cons_append, scanNumeral]
      cases hc : value c with
      | none =>
          -- a glyph that is no digit has no value, and neither has the whole
          rw [hc, Option.map_none] at h
          exact absurd (h.symm.trans (foldl_none l)) (by simp)
      | some d =>
          rw [hc, Option.map_some] at h
          exact ih h

/-- Digits make a number no smaller. -/
lemma le_scanNumeral (hb : 0 < b) : n ≤ (scanNumeral b value n l).1 := by
  induction l generalizing n with
  | nil => exact le_rfl
  | cons c l ih =>
      rw [scanNumeral]
      cases hc : value c with
      | none => exact le_rfl
      | some d =>
          have hmul : n ≤ n * b := Nat.le_mul_of_pos_right n hb
          exact (hmul.trans (Nat.le_add_right _ d)).trans ih

/-- Reading stops at a glyph that is no digit. -/
lemma scanNumeral_of_head (h : ∀ c ∈ l.head?, value c = none) : scanNumeral b value n l = (n, l) := by
  cases l with
  | nil => rfl
  | cons c l => rw [scanNumeral, h c rfl]

/-- A number that is not 0 starts with a digit that is not 0. -/
lemma head_numeral (hb : 1 < b) (hn : 0 < n) : ∃ d, 0 < d ∧ d < b ∧ (numeral b glyph n).head? = some (glyph d) := by
  refine numeral_induction (P := fun n => 0 < n → ∃ d, 0 < d ∧ d < b ∧
    (numeral b glyph n).head? = some (glyph d)) hb (fun n hn hpos => ?_) (fun n hn ih _ => ?_) hn
  · exact ⟨n, hpos, hn, by rw [numeral_of_lt hn]; rfl⟩
  · obtain ⟨d, hpos, hd, hhead⟩ := ih (Nat.div_pos hn (by omega))
    exact ⟨d, hpos, hd, by rw [numeral_of_le hb hn, List.head?_append, hhead]; rfl⟩

section Alphabet

variable (hb : 1 < b) (hvalue : ∀ d < b, value (glyph d) = some d)

include hb hvalue

/-- **The numeral is read back.** -/
lemma read_numeral : readNumeral b value (numeral b glyph n) = some n := by
  refine numeral_induction (P := fun n => readNumeral b value (numeral b glyph n) = some n) hb
    (fun n hn => ?_) fun n hn ih => ?_
  · rw [numeral_of_lt hn]
    simp [readNumeral, hvalue n hn]
  · rw [numeral_of_le hb hn, readNumeral_append_singleton, ih, hvalue _ (Nat.mod_lt n (by omega)),
      Option.bind_some, Option.map_some, Nat.div_add_mod']

/-- **The numeral is canonical.** -/
lemma canonical_numeral : Canonical value (numeral b glyph n) := by
  refine ⟨by simp [numeral], fun c hc => ?_, fun c hc hzero => ?_⟩
  · rcases List.mem_append.mp hc with hmem | hmem
    · obtain ⟨d, hd, rfl⟩ := List.mem_map.mp hmem
      rw [hvalue d (Nat.digits_lt_base hb (List.mem_reverse.mp hd))]
      rfl
    · rw [List.mem_singleton.mp hmem, hvalue _ (Nat.mod_lt n (by omega))]
      rfl
  · rcases Nat.eq_zero_or_pos n with rfl | hpos
    · rw [numeral_of_lt (by omega)] at hc ⊢
      rw [Option.some.inj hc]
    · obtain ⟨d, hpos, hd, hhead⟩ := head_numeral hb hpos
      rw [hhead] at hc
      rw [← Option.some.inj hc, hvalue d hd] at hzero
      exact absurd (Option.some.inj hzero) (by omega)

/-- **Zeros and a numeral are read** up to the first glyph behind them that is no digit. -/
lemma scan_numeral (k : ℕ) {rest : List γ} (hrest : ∀ c ∈ rest.head?, value c = none) :
    scanNumeral b value 0 (List.replicate k (glyph 0) ++ numeral b glyph n ++ rest) = (n, rest) := by
  have hzeros : readNumeral b value (List.replicate k (glyph 0)) = some 0 := by
    induction k with
    | zero => rfl
    | succ k ih =>
        rw [List.replicate_succ', readNumeral_append_singleton, ih, hvalue 0 (by omega)]
        simp
  rw [List.append_assoc, scanNumeral_append hzeros,
    scanNumeral_append (read_numeral hb hvalue), scanNumeral_of_head hrest]

end Alphabet

end Lib
