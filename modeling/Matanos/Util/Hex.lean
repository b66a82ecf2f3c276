import Matanos.Util.Decimal

/-!
`hex_to_ascii` of `kernel/util.c`.

The seven upper nibbles are written in a loop, the last one behind it. The loop takes 10 for a decimal
digit, the code behind it does not.

* `loopGlyph`, `hexGlyph`: the characters of the two;
* `append`, `hexLoop`, `hexToAscii`: the function;
* `upperText`, `hexLoop_text`: what the loop writes;
* `IsHex`: the canonical hexadecimal numeral of a word;
* `hex_to_ascii_iff`: the function writes it for every word without an upper nibble 10.
-/

namespace Matanos

open Lib

namespace Util

/-- `append`. -/
def append (s : ℤ → UInt8) (n : UInt8) : Option (ℤ → UInt8) :=
  (strlen s).map fun len : ℕ => Function.update (Function.update s len n) (len + 1) 0

/-- The character of a nibble in the loop. -/
def loopGlyph (tmp : ℕ) : UInt8 :=
  if tmp > 0xA then UInt8.ofNat (tmp - 0xA + 97) else UInt8.ofNat (tmp + 48)

/-- The character of the last nibble. -/
def hexGlyph (tmp : ℕ) : UInt8 :=
  if tmp ≥ 0xA then UInt8.ofNat (tmp - 0xA + 97) else UInt8.ofNat (tmp + 48)

/-- The loop, for `i` from `4 * k` down to 4. -/
def hexLoop (n : BitVec 32) : ℕ → Bool → (ℤ → UInt8) → Option (ℤ → UInt8)
  | 0, _, str => some str
  | k + 1, zeros, str =>
      let tmp := (n.sshiftRight (4 * (k + 1)) &&& 0xF#32).toNat
      if tmp = 0 ∧ zeros = false then hexLoop n k zeros str
      else (append str (loopGlyph tmp)).bind (hexLoop n k true)

/-- `hex_to_ascii`. -/
def hexToAscii (n : BitVec 32) (str : ℤ → UInt8) : Option (ℤ → UInt8) :=
  (append str 48).bind fun str =>
    (append str 120).bind fun str =>
      (hexLoop n 7 false str).bind fun str =>
        append str (hexGlyph (n &&& 0xF#32).toNat)

/-! ### Hexadecimal numerals -/

/-- The value of a digit, with lower-case letters. -/
def hexValue (c : UInt8) : Option ℕ :=
  if 48 ≤ c ∧ c ≤ 57 then some (c.toNat - 48)
  else if 97 ≤ c ∧ c ≤ 102 then some (c.toNat - 87)
  else none

/-- The text is `0x` and the canonical hexadecimal numeral of the word. -/
def IsHex (text : List UInt8) (n : BitVec 32) : Prop :=
  ∃ digits, text = 48 :: 120 :: digits ∧ Canonical hexValue digits ∧
    readNumeral 16 hexValue digits = some n.toNat

/-! ### The loop -/

variable {n : BitVec 32} {str : ℤ → UInt8} {text : List UInt8} {k q : ℕ}

/-- What the loop writes of the digits of `q`. -/
def upperText (q : ℕ) : List UInt8 := (Nat.digits 16 q).reverse.map loopGlyph

lemma append_text (h : HasText str text) (hlen : text.length < 2 ^ 31) {c : UInt8} (hc : c ≠ 0) :
    ∃ str', append str c = some str' ∧ HasText str' (text ++ [c]) :=
  ⟨_, by rw [append, h.strlen hlen, Option.map_some], h.append hc⟩

/-- The shift of a negative `int` keeps its sign, which the mask takes away. -/
lemma nibble_eq (hk : k < 8) : (n.sshiftRight (4 * k) &&& 0xF#32).toNat = n.toNat / 16 ^ k % 16 := by
  have hmask : n.sshiftRight (4 * k) &&& 0xF#32 = n >>> (4 * k) &&& 0xF#32 := by
    refine BitVec.eq_of_getLsbD_eq fun i hi => ?_
    rw [BitVec.getLsbD_and, BitVec.getLsbD_and]
    rcases Nat.lt_or_ge i 4 with hlow | hhigh
    · rw [BitVec.getLsbD_sshiftRight, BitVec.getLsbD_ushiftRight, if_pos (by omega),
        decide_eq_false (by omega), Bool.not_false, Bool.true_and]
    · have hclear : (0xF#32).getLsbD i = false := by
        have hlt : (0xF : ℕ) < 2 ^ i := lt_of_lt_of_le (by decide) (Nat.pow_le_pow_right (by decide) hhigh)
        rw [BitVec.getLsbD_ofNat, Nat.testBit_lt_two_pow hlt, Bool.and_false]
      rw [hclear, Bool.and_false, Bool.and_false]
  rw [hmask, BitVec.toNat_and, BitVec.toNat_ushiftRight, Nat.shiftRight_eq_div_pow, pow_mul]
  exact Nat.and_two_pow_sub_one_eq_mod _ 4

lemma loopGlyph_ne_zero : ∀ d < 16, loopGlyph d ≠ 0 := by decide

/-- One more digit. -/
lemma upperText_step (hq : 0 < 16 * q + k) (hk : k < 16) :
    upperText (16 * q + k) = upperText q ++ [loopGlyph k] := by
  have hmod : (16 * q + k) % 16 = k := by omega
  have hdiv : (16 * q + k) / 16 = q := by omega
  rw [upperText, upperText, Nat.digits_def' (by decide) hq, hmod, hdiv, List.reverse_cons,
    List.map_append, List.map_singleton]

lemma length_upperText (hq : q < 16 ^ k) : (upperText q).length ≤ k := by
  rw [upperText, List.length_map, List.length_reverse]
  exact (Nat.digits_length_le_iff (by decide) q).mpr hq

/-- **The loop** writes the digits above the last nibble, from the first one that is not 0. -/
lemma hexLoop_text (hk : k < 8) {zeros : Bool} (hzeros : zeros = decide (n.toNat / 16 ^ (k + 1) ≠ 0))
    (h : HasText str (48 :: 120 :: upperText (n.toNat / 16 ^ (k + 1)))) :
    ∃ str', hexLoop n k zeros str = some str' ∧
      HasText str' (48 :: 120 :: upperText (n.toNat / 16)) := by
  induction k generalizing zeros str with
  | zero => exact ⟨str, rfl, by simpa using h⟩
  | succ k ih =>
      obtain ⟨q, hq⟩ : ∃ q, n.toNat / 16 ^ (k + 1 + 1) = q := ⟨_, rfl⟩
      obtain ⟨d, hd⟩ : ∃ d, n.toNat / 16 ^ (k + 1) % 16 = d := ⟨_, rfl⟩
      have hnext : n.toNat / 16 ^ (k + 1) = 16 * q + d := by
        have hdiv : n.toNat / 16 ^ (k + 1) / 16 = q := by
          rw [Nat.div_div_eq_div_mul, ← pow_succ, hq]
        omega
      have hd16 : d < 16 := hd ▸ Nat.mod_lt _ (by decide)
      rw [hq] at h hzeros
      rw [hexLoop, nibble_eq hk, hd]
      by_cases hskip : d = 0 ∧ zeros = false
      · -- leading zeros
        rw [if_pos hskip]
        have hq0 : q = 0 := by
          have hfalse := hskip.2
          rw [hzeros] at hfalse
          simpa using hfalse
        have hnext0 : n.toNat / 16 ^ (k + 1) = 0 := by
          rw [hnext, hq0, hskip.1]
        refine ih (by omega) ?_ ?_
        · rw [hnext0, hskip.2]
          rfl
        · rw [hnext0]
          rwa [hq0] at h
      · rw [if_neg hskip]
        have hpos : 0 < 16 * q + d := by
          by_contra hzero
          refine hskip ⟨by omega, ?_⟩
          rw [hzeros]
          simp only [ne_eq, decide_not, Bool.not_eq_eq_eq_not, Bool.not_false, decide_eq_true_eq]
          omega
        have hlen : (upperText q).length ≤ 8 := length_upperText (k := 8) (by
          have hlt := n.isLt
          have hle : q ≤ n.toNat := hq ▸ Nat.div_le_self _ _
          omega)
        obtain ⟨str₁, hstr₁, htext₁⟩ := append_text h (by simp only [List.length_cons]; omega)
          (loopGlyph_ne_zero d hd16)
        rw [hstr₁, Option.bind_some]
        rw [List.cons_append, List.cons_append, ← upperText_step hpos hd16, ← hnext] at htext₁
        refine ih (by omega) ?_ htext₁
        rw [hnext, decide_eq_true (by omega)]

/-- **What the function writes.** -/
lemma hexToAscii_text (n : BitVec 32) (h : HasText str []) :
    ∃ str', hexToAscii n str = some str' ∧
      HasText str' (48 :: 120 :: (upperText (n.toNat / 16) ++ [hexGlyph (n.toNat % 16)])) := by
  obtain ⟨str₁, hstr₁, htext₁⟩ := append_text h (by decide) (by decide : (48 : UInt8) ≠ 0)
  obtain ⟨str₂, hstr₂, htext₂⟩ := append_text htext₁ (by decide) (by decide : (120 : UInt8) ≠ 0)
  have hlt := n.isLt
  have htop : n.toNat / 16 ^ (7 + 1) = 0 := Nat.div_eq_of_lt (by omega)
  obtain ⟨str₃, hstr₃, htext₃⟩ := hexLoop_text (n := n) (by decide : 7 < 8)
    (by rw [htop]; rfl : false = _) (by rw [htop]; exact htext₂)
  have hlen : (upperText (n.toNat / 16)).length ≤ 7 := length_upperText (k := 7) (by omega)
  have hlast : (n &&& 0xF#32).toNat = n.toNat % 16 := by
    rw [BitVec.toNat_and]
    exact Nat.and_two_pow_sub_one_eq_mod _ 4
  have hglyph : ∀ d < 16, hexGlyph d ≠ 0 := by decide
  obtain ⟨str₄, hstr₄, htext₄⟩ := append_text htext₃ (by simp only [List.length_cons]; omega)
    (hglyph _ (Nat.mod_lt n.toNat (by decide)))
  refine ⟨str₄, ?_, htext₄⟩
  rw [hexToAscii, hstr₁, Option.bind_some, hstr₂, Option.bind_some, hstr₃, Option.bind_some, hlast]
  exact hstr₄

/-! ### The texts -/

lemma hexValue_glyph : ∀ d < 16, hexValue (hexGlyph d) = some d := by decide

/-- The characters of the loop are right, except for 10. -/
lemma loopGlyph_eq : ∀ d < 16, d ≠ 10 → loopGlyph d = hexGlyph d := by decide

/-- No nibble above the last one is 10. -/
def NoUpperTen (n : BitVec 32) : Prop := ∀ k, 1 ≤ k → k ≤ 7 → n.toNat / 16 ^ k % 16 ≠ 10

/-- Then 10 is no digit above the last one. -/
lemma noUpperTen_iff : NoUpperTen n ↔ 10 ∉ Nat.digits 16 (n.toNat / 16) := by
  have hdigit : ∀ i, (Nat.digits 16 (n.toNat / 16)).getD i 0 = n.toNat / 16 ^ (i + 1) % 16 := by
    intro i
    rw [Nat.getD_digits _ _ (by decide), Nat.div_div_eq_div_mul, ← pow_succ']
  constructor
  · intro h hmem
    obtain ⟨i, hi, hten⟩ := List.mem_iff_getElem.mp hmem
    have hbit := hdigit i
    rw [List.getD_eq_getElem _ _ hi, hten] at hbit
    have hlt : i < 7 := by
      have hlen : (Nat.digits 16 (n.toNat / 16)).length ≤ 7 :=
        (Nat.digits_length_le_iff (by decide) _).mpr (by have := n.isLt; omega)
      omega
    exact h (i + 1) (by omega) (by omega) hbit.symm
  · intro h k hk hk7 hten
    obtain ⟨i, rfl⟩ : ∃ i, k = i + 1 := ⟨k - 1, by omega⟩
    rw [← hdigit] at hten
    refine h ?_
    by_cases hi : i < (Nat.digits 16 (n.toNat / 16)).length
    · rw [List.getD_eq_getElem _ _ hi] at hten
      exact hten ▸ List.getElem_mem hi
    · rw [List.getD_eq_default _ _ (by omega)] at hten
      exact absurd hten (by decide)

/-- **The numeral**, when none is. -/
lemma text_of_noUpperTen (h : NoUpperTen n) :
    upperText (n.toNat / 16) ++ [hexGlyph (n.toNat % 16)] = numeral 16 hexGlyph n.toNat := by
  rw [numeral, upperText]
  congr 1
  refine List.map_congr_left fun d hd => ?_
  have hd' := List.mem_reverse.mp hd
  exact loopGlyph_eq d (Nat.digits_lt_base (by decide) hd') fun hten => noUpperTen_iff.mp h (hten ▸ hd')

/-- **The character of a nibble 10** in the loop is no digit. -/
lemma not_canonical (h : ¬ NoUpperTen n) :
    ¬ Canonical hexValue (upperText (n.toNat / 16) ++ [hexGlyph (n.toNat % 16)]) := by
  intro hcanonical
  rw [noUpperTen_iff, not_not] at h
  have hmem : loopGlyph 10 ∈ upperText (n.toNat / 16) :=
    List.mem_map_of_mem (List.mem_reverse.mpr h)
  exact absurd (hcanonical.digits _ (List.mem_append_left _ hmem)) (by decide)

/-- What is left in a buffer that was empty. -/
lemma hexToAscii_unique {str' : ℤ → UInt8} (h : HasText str []) (hstr : hexToAscii n str = some str')
    (htext : HasText str' text) :
    text = 48 :: 120 :: (upperText (n.toNat / 16) ++ [hexGlyph (n.toNat % 16)]) := by
  obtain ⟨s', hs', htext'⟩ := hexToAscii_text n h
  obtain rfl := Option.some.inj (hs'.symm.trans hstr)
  exact htext.unique htext'

/-- The function left the numeral of the word, and leaves the same text for no other one. -/
def LeavesNumeral (n : BitVec 32) (text : List UInt8) : Prop :=
  IsHex text n ∧ ∀ n' s s', HasText s [] → hexToAscii n' s = some s' → HasText s' text → n' = n

end Util

open Util in
/-- `hex_to_ascii` writes `0x` and the canonical hexadecimal numeral of a word, from which the word is read
back and which it writes for no other word, if and only if no nibble above the last one is 10. -/
theorem hex_to_ascii_iff (n : BitVec 32) {str : ℤ → UInt8} (hempty : HasText str []) :
    (∃ str' text, hexToAscii n str = some str' ∧ HasText str' text ∧ LeavesNumeral n text) ↔
      NoUpperTen n := by
  have hread : ∀ m : ℕ, readNumeral 16 hexValue (numeral 16 hexGlyph m) = some m := fun m =>
    read_numeral (by decide) hexValue_glyph
  constructor
  · rintro ⟨str', text, hstr, htext, ⟨digits, hdigits, hcanonical, -⟩, -⟩
    by_contra hten
    rw [hexToAscii_unique hempty hstr htext] at hdigits
    obtain rfl := List.cons_injective (List.cons_injective hdigits)
    exact not_canonical hten hcanonical
  · intro hnone
    obtain ⟨str', hstr, htext⟩ := hexToAscii_text n hempty
    have hcanonical : Canonical hexValue (numeral 16 hexGlyph n.toNat) :=
      canonical_numeral (by decide) hexValue_glyph
    rw [text_of_noUpperTen hnone] at htext
    refine ⟨str', _, hstr, htext, ⟨_, rfl, hcanonical, hread _⟩, fun n' s s' hs hs' htext' => ?_⟩
    -- the other word has no upper nibble 10 either, as its text is this one
    have heq := List.cons_injective (List.cons_injective (hexToAscii_unique hs hs' htext'))
    have hnone' : NoUpperTen n' := by
      by_contra hten
      exact not_canonical hten (heq ▸ hcanonical)
    rw [text_of_noUpperTen hnone'] at heq
    have hvalue := hread n.toNat
    rw [heq, hread] at hvalue
    exact BitVec.eq_of_toNat_eq (Option.some.inj hvalue)

/-- A word with letters. -/
theorem hex_to_ascii_coffee :
    (∃ str' text, Util.hexToAscii 0xC0FFEE (fun _ => 0) = some str' ∧ HasText str' text ∧
      Util.LeavesNumeral 0xC0FFEE text) ↔ Util.NoUpperTen 0xC0FFEE :=
  hex_to_ascii_iff _ (hasText_nil rfl)

/-- For `0xA0` the function writes a colon. -/
theorem hex_to_ascii_colon :
    ¬ ∃ str' text, Util.hexToAscii 0xA0 (fun _ => 0) = some str' ∧ HasText str' text ∧
      Util.LeavesNumeral 0xA0 text := by
  rintro ⟨str', text, hstr, htext, ⟨digits, hdigits, hcanonical, -⟩, -⟩
  rw [Util.hexToAscii_unique (hasText_nil rfl) hstr htext] at hdigits
  obtain rfl := List.cons_injective (List.cons_injective hdigits)
  refine Util.not_canonical (fun hnone => ?_) hcanonical
  exact hnone 1 le_rfl (by decide) (by decide)

end Matanos
