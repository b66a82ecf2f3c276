import Matanos.Lib.Numeral
import Matanos.Drivers.Printf

/-!
`int_to_ascii` of `kernel/util.c`.

Memory is addressed from `str` on, and an `int` is an integer. The negation of the least `int` is
undefined in the language; here it wraps, as the machine's does.

* `digitLoop`, `reverseLoop`, `intToAscii`: the function with its loops;
* `digitLoop_eq`, `reverse_text`: what the loops leave;
* `IsDecimal`: the canonical decimal numeral of an integer; `readDecimal`: what such a text is read as;
* `int_to_ascii_iff`: the function writes it for every `int` but the least.
-/

namespace Matanos

open Lib

namespace Util

/-- A positive quotient is smaller than what is divided. -/
lemma natAbs_tdiv_lt {n : ℤ} (h : 0 < n.tdiv 10) : (n.tdiv 10).natAbs < n.natAbs := by
  rcases Int.le_total 0 n with hn | hn
  · rw [Int.tdiv_eq_ediv_of_nonneg hn] at h ⊢
    omega
  · have hneg := Int.tdiv_nonneg (a := -n) (b := 10) (by omega) (by omega)
    rw [Int.neg_tdiv] at hneg
    omega

/-- The loop of `int_to_ascii`, with the `i` behind the last digit. -/
def digitLoop (n : ℤ) (i : ℕ) (str : ℤ → UInt8) : ℕ × (ℤ → UInt8) :=
  let str := Function.update str i (toUnsignedChar (n.tmod 10 + 48))
  let n := n.tdiv 10
  if 0 < n then digitLoop n (i + 1) str else (i + 1, str)
termination_by n.natAbs
decreasing_by exact natAbs_tdiv_lt ‹_›

/-- The loop of `reverse`. -/
def reverseLoop (i j : ℤ) (s : ℤ → UInt8) : ℤ → UInt8 :=
  if i < j then
    let c := s i
    let s := Function.update s i (s j)
    let s := Function.update s j c
    reverseLoop (i + 1) (j - 1) s
  else s
termination_by (j - i).toNat

/-- `reverse`. -/
def reverse (s : ℤ → UInt8) : Option (ℤ → UInt8) :=
  (strlen s).map fun len : ℕ => reverseLoop 0 (len - 1) s

/-- `int_to_ascii`. -/
def intToAscii (n : ℤ) (str : ℤ → UInt8) : Option (ℤ → UInt8) :=
  let sign := n
  let n := if sign < 0 then Printf.wrapInt (-n) else n
  let (i, str) := digitLoop n 0 str
  let (i, str) := if sign < 0 then (i + 1, Function.update str i 45) else (i, str)
  let str := Function.update str i 0
  reverse str

/-! ### Decimal numerals -/

/-- The digit `d`. -/
def decimalGlyph (d : ℕ) : UInt8 := UInt8.ofNat (48 + d)

/-- The value of a digit. -/
def decimalValue (c : UInt8) : Option ℕ := if Printf.isDigit c then some (c.toNat - 48) else none

/-- The integer that a text stands for: a minus sign or none, and digits. -/
def readDecimal : List UInt8 → Option ℤ
  | 45 :: text => (readNumeral 10 decimalValue text).map fun n => -(n : ℤ)
  | text => (readNumeral 10 decimalValue text).map fun n => (n : ℤ)

/-- The text is the canonical decimal numeral of the integer. -/
structure IsDecimal (text : List UInt8) (n : ℤ) : Prop where
  canonical : ∃ digits, text = (if n < 0 then 45 :: digits else digits) ∧
    Canonical decimalValue digits
  read : readDecimal text = some n

/-! ### The loops -/

variable {n : ℕ} {i j x : ℤ} {s : ℤ → UInt8} {text : List UInt8}

/-- Memory with the bytes of a list from `i` on. -/
def putAll (s : ℤ → UInt8) : ℕ → List UInt8 → ℤ → UInt8
  | _, [] => s
  | i, c :: l => putAll (Function.update s i c) (i + 1) l

lemma putAll_append (i : ℕ) (l l' : List UInt8) :
    putAll s i (l ++ l') = putAll (putAll s i l) (i + l.length) l' := by
  induction l generalizing s i with
  | nil => rfl
  | cons c l ih =>
      rw [List.cons_append, putAll, ih, putAll, List.length_cons]
      congr 1
      omega

/-- The bytes in front of the list. -/
lemma putAll_below {i : ℕ} {l : List UInt8} (hx : x < i) : putAll s i l x = s x := by
  induction l generalizing s i with
  | nil => rfl
  | cons c l ih =>
      rw [putAll, ih (by omega)]
      exact Function.update_of_ne (by omega) _ _

/-- The bytes of the list. -/
lemma putAll_byte {i k : ℕ} {l : List UInt8} (hk : k < l.length) :
    putAll s i l ((i + k : ℕ) : ℤ) = l[k] := by
  induction l generalizing s i k with
  | nil => exact absurd hk (Nat.not_lt_zero k)
  | cons c l ih =>
      rw [putAll]
      cases k with
      | zero =>
          rw [putAll_below (by omega)]
          exact Function.update_self _ _ _
      | succ k =>
          have hnext := ih (s := Function.update s i c) (i := i + 1) (k := k)
            (by simpa using hk)
          rw [List.getElem_cons_succ, ← hnext]
          congr 2
          omega

/-- A digit as the loop writes it. -/
lemma toUnsignedChar_digit (n : ℕ) : toUnsignedChar ((n : ℤ).tmod 10 + 48) = decimalGlyph (n % 10) := by
  rw [Int.tmod_eq_emod_of_nonneg (by omega), toUnsignedChar, decimalGlyph]
  congr 1
  omega

/-- **The digits of a number**, the last one first. -/
lemma digitLoop_eq (n i : ℕ) (s : ℤ → UInt8) :
    digitLoop n i s = (i + (numeral 10 decimalGlyph n).length,
      putAll s i (numeral 10 decimalGlyph n).reverse) := by
  induction n using Nat.strong_induction_on generalizing i s with
  | _ n ih =>
      have hquot : (n : ℤ).tdiv 10 = ((n / 10 : ℕ) : ℤ) := by
        rw [Int.tdiv_eq_ediv_of_nonneg (by omega)]
        rfl
      rw [digitLoop, toUnsignedChar_digit, hquot]
      rcases Nat.lt_or_ge n 10 with hlt | hle
      · rw [if_neg (by omega), numeral_of_lt hlt, Nat.mod_eq_of_lt hlt]
        rfl
      · rw [if_pos (by omega), ih _ (by omega), numeral_of_le (by decide) hle, List.length_append,
          List.reverse_append, List.length_singleton, List.reverse_singleton, List.singleton_append,
          putAll]
        congr 1
        omega

/-- **What the swaps leave.** -/
lemma reverseLoop_byte (hij : i ≤ j + 1) :
    reverseLoop i j s x = if i ≤ x ∧ x ≤ j then s (i + j - x) else s x := by
  fun_induction reverseLoop i j s with
  | case1 i j s hlt c s₁ s₂ ih =>
      rw [ih (by omega)]
      have hswap : ∀ y, s₂ y = if y = j then s i else if y = i then s j else s y := by
        intro y
        simp only [s₂, s₁, c, Function.update_apply]
      have hsum : i + 1 + (j - 1) - x = i + j - x := by omega
      rw [hsum]
      by_cases hin : i + 1 ≤ x ∧ x ≤ j - 1
      · rw [if_pos hin, if_pos (by omega), hswap, if_neg (by omega), if_neg (by omega)]
      · rw [if_neg hin, hswap]
        by_cases hj : x = j
        · rw [if_pos hj, if_pos (by omega), hj, Int.add_sub_cancel]
        · by_cases hi : x = i
          · rw [if_neg hj, if_pos hi, if_pos (by omega), hi, add_sub_cancel_left]
          · rw [if_neg hj, if_neg hi, if_neg (by omega)]
  | case2 i j s hge =>
      by_cases hin : i ≤ x ∧ x ≤ j
      · rw [if_pos hin]
        congr 1
        omega
      · rw [if_neg hin]

/-- **`reverse` reverses the text.** -/
lemma reverse_text (h : HasText s text) (hlen : text.length < 2 ^ 31) :
    ∃ s', reverse s = some s' ∧ HasText s' text.reverse := by
  refine ⟨_, by rw [reverse, h.strlen hlen, Option.map_some], fun k hk => ?_, fun c hc => ?_, ?_⟩
  · have hk' : k < text.length := by simpa using hk
    have hat : (0 : ℤ) + ((text.length : ℤ) - 1) - k = ((text.length - 1 - k : ℕ) : ℤ) := by omega
    rw [reverseLoop_byte (by omega), if_pos (by omega), hat, h.byte _ (by omega)]
    simp [List.getElem_reverse]
  · exact h.nonzero c (List.mem_reverse.mp hc)
  · rw [reverseLoop_byte (by omega), if_neg (by simp), List.length_reverse]
    exact h.terminated

/-- A list without NULs that is written with a NUL behind it is a text. -/
lemma hasText_putAll (hnz : ∀ c ∈ text, c ≠ 0) :
    HasText (Function.update (putAll s 0 text) text.length 0) text := by
  refine ⟨fun k hk => ?_, hnz, Function.update_self _ _ _⟩
  have hbyte := putAll_byte (s := s) (i := 0) hk
  rw [Nat.zero_add] at hbyte
  rw [Function.update_of_ne (by omega), hbyte]
  rfl

/-! ### The texts -/

lemma decimalValue_glyph : ∀ d < 10, decimalValue (decimalGlyph d) = some d := by decide

/-- The digits of a number, as the function writes them. -/
lemma canonical_decimal (n : ℕ) : Canonical decimalValue (numeral 10 decimalGlyph n) :=
  canonical_numeral (by decide) decimalValue_glyph

/-- A digit is neither NUL nor a minus sign. -/
lemma ne_of_decimalValue {c : UInt8} (h : (decimalValue c).isSome) : c ≠ 0 ∧ c ≠ 45 := by
  constructor <;>
  · rintro rfl
    exact absurd h (by decide)

/-- **A number that is not negative.** -/
lemma intToAscii_nat (hn : n < 2 ^ 31) (s : ℤ → UInt8) :
    ∃ s', intToAscii n s = some s' ∧ HasText s' (numeral 10 decimalGlyph n) := by
  have hlength : (numeral 10 decimalGlyph n).length ≤ n / 10 + 1 := length_numeral_le (by decide)
  have hnz : ∀ c ∈ (numeral 10 decimalGlyph n).reverse, c ≠ 0 := fun c hc =>
    (ne_of_decimalValue ((canonical_decimal n).digits c (List.mem_reverse.mp hc))).1
  have htext := hasText_putAll (s := s) hnz
  rw [List.length_reverse] at htext
  obtain ⟨s', hs', htext'⟩ := reverse_text htext (by rw [List.length_reverse]; omega)
  rw [List.reverse_reverse] at htext'
  refine ⟨s', ?_, htext'⟩
  rw [intToAscii]
  simp only [if_neg (show ¬ (n : ℤ) < 0 by omega), digitLoop_eq, Nat.zero_add]
  exact hs'

/-- **A negative number** whose negation does not wrap. -/
lemma intToAscii_neg (hpos : 0 < n) (hn : n < 2 ^ 31) (s : ℤ → UInt8) :
    ∃ s', intToAscii (-n) s = some s' ∧ HasText s' (45 :: numeral 10 decimalGlyph n) := by
  have hlength : (numeral 10 decimalGlyph n).length ≤ n / 10 + 1 := length_numeral_le (by decide)
  have hwrap : Printf.wrapInt (- -(n : ℤ)) = n := by
    rw [Printf.wrapInt]
    omega
  have hnz : ∀ c ∈ (numeral 10 decimalGlyph n).reverse ++ [45], c ≠ 0 := by
    intro c hc
    rcases List.mem_append.mp hc with hmem | hmem
    · exact (ne_of_decimalValue ((canonical_decimal n).digits c (List.mem_reverse.mp hmem))).1
    · rw [List.mem_singleton.mp hmem]
      decide
  have htext := hasText_putAll (s := s) hnz
  obtain ⟨s', hs', htext'⟩ := reverse_text htext (by simp; omega)
  rw [List.reverse_append, List.reverse_reverse] at htext'
  refine ⟨s', ?_, htext'⟩
  rw [putAll_append, List.length_append, List.length_reverse, Nat.zero_add] at hs'
  rw [intToAscii]
  simp only [if_pos (show -(n : ℤ) < 0 by omega), hwrap, digitLoop_eq, Nat.zero_add]
  exact hs'

/-- **The least `int`**: its negation wraps to itself. -/
lemma intToAscii_least (s : ℤ → UInt8) :
    ∃ s', intToAscii (-2 ^ 31) s = some s' ∧ HasText s' [45, 40] := by
  have hwrap : Printf.wrapInt (- -2 ^ 31) = -2 ^ 31 := by decide
  have hchar : toUnsignedChar ((-2 ^ 31 : ℤ).tmod 10 + 48) = 40 := by decide
  have hloop : digitLoop (-2 ^ 31) 0 s = (1, putAll s 0 [40]) := by
    rw [digitLoop, hchar, if_neg (by decide)]
    rfl
  have hnz : ∀ c ∈ ([40, 45] : List UInt8), c ≠ 0 := by simp
  have htext := hasText_putAll (s := s) hnz
  obtain ⟨s', hs', htext'⟩ := reverse_text htext (by decide)
  refine ⟨s', ?_, htext'⟩
  rw [intToAscii]
  simp only [if_pos (show (-2 ^ 31 : ℤ) < 0 by decide), hwrap, hloop]
  exact hs'

/-- The digits are read back. -/
lemma readDecimal_numeral (n : ℕ) : readDecimal (numeral 10 decimalGlyph n) = some (n : ℤ) := by
  have hread := read_numeral (n := n) (by decide : 1 < 10) decimalValue_glyph
  have hcanonical := canonical_decimal n
  revert hread hcanonical
  generalize numeral 10 decimalGlyph n = digits
  intro hread hcanonical
  rw [readDecimal, hread]
  · rfl
  · rintro text rfl
    exact (ne_of_decimalValue (hcanonical.digits 45 List.mem_cons_self)).2 rfl

lemma readDecimal_minus (n : ℕ) : readDecimal (45 :: numeral 10 decimalGlyph n) = some (-(n : ℤ)) := by
  rw [readDecimal, read_numeral (by decide) decimalValue_glyph]
  rfl

end Util

open Util in
/-- `int_to_ascii` writes the canonical decimal numeral of an `int`, from which the `int` is read back, if
and only if it is not the least one. -/
theorem int_to_ascii_iff {n : ℤ} (hlo : -2 ^ 31 ≤ n) (hhi : n < 2 ^ 31) (str : ℤ → UInt8) :
    (∃ str' text, intToAscii n str = some str' ∧ HasText str' text ∧ IsDecimal text n) ↔
      n ≠ -2 ^ 31 := by
  constructor
  · rintro ⟨str', text, hstr, htext, -, hread⟩ rfl
    obtain ⟨s', hs', htext'⟩ := intToAscii_least str
    rw [hs'] at hstr
    obtain rfl := Option.some.inj hstr
    rw [htext.unique htext'] at hread
    exact absurd hread (by decide)
  · intro hne
    rcases lt_or_ge n 0 with hneg | hpos
    · obtain ⟨k, rfl⟩ : ∃ k : ℕ, n = -(k : ℤ) := ⟨n.natAbs, by omega⟩
      obtain ⟨s', hs', htext⟩ := intToAscii_neg (n := k) (by omega) (by omega) str
      refine ⟨s', _, hs', htext, ⟨_, ?_, canonical_decimal k⟩, readDecimal_minus k⟩
      rw [if_pos hneg]
    · obtain ⟨k, rfl⟩ : ∃ k : ℕ, n = (k : ℤ) := ⟨n.natAbs, by omega⟩
      obtain ⟨s', hs', htext⟩ := intToAscii_nat (n := k) (by omega) str
      refine ⟨s', _, hs', htext, ⟨_, ?_, canonical_decimal k⟩, readDecimal_numeral k⟩
      rw [if_neg (by omega)]

/-- A negative number. -/
theorem int_to_ascii_minus_forty_two :
    (∃ str' text, Util.intToAscii (-42) (fun _ => 0) = some str' ∧ HasText str' text ∧
      Util.IsDecimal text (-42)) ↔ (-42 : ℤ) ≠ -2 ^ 31 :=
  int_to_ascii_iff (by decide) (by decide) _

/-- The least `int` becomes a minus sign and an opening parenthesis. -/
theorem int_to_ascii_least :
    ¬ ∃ str' text, Util.intToAscii (-2 ^ 31) (fun _ => 0) = some str' ∧ HasText str' text ∧
      Util.IsDecimal text (-2 ^ 31) := by
  rintro ⟨str', text, hstr, htext, hdecimal⟩
  obtain ⟨s', hs', htext'⟩ := Util.intToAscii_least fun _ => 0
  rw [hs'] at hstr
  obtain rfl := Option.some.inj hstr
  have hread := hdecimal.read
  rw [htext.unique htext'] at hread
  exact absurd hread (by decide)

end Matanos
