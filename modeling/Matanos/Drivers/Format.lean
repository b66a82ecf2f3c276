import Matanos.Lib.Numeral
import Matanos.Drivers.Verbatim

/-!
The language of the formats of `vsprintf`.

A format is made of single bytes and of directives: flags in any order and any number, a width, a
precision, a qualifier, and the character of a conversion. A width does not begin with a zero, which would
be a flag.

* `Field`, `Spec`, `Piece`: the formats, with their bytes (`render`) and their meaning (`value`,
  `directive`, `run`);
* `skipAtoi_numeral`, `parseFlags_append`, `parseNumber_render`: the parts of a directive are recognised;
* `parseDirective_render`: a directive is recognised;
* `vsprintf_format`: a format does what its pieces do, one after the other.
-/

namespace Matanos

open Lib

namespace Printf

/-- The bytes of the flags. -/
def flagBytes : List UInt8 := [45, 43, 32, 35, 48]

/-- The character of a decimal digit. -/
def decimalGlyph (d : ℕ) : UInt8 := UInt8.ofNat (48 + d)

/-- The value of a decimal digit. -/
def decimalValue (c : UInt8) : Option ℕ := if isDigit c then some (c.toNat - 48) else none

/-- A number in a directive: none at all, decimal digits, or an argument. -/
inductive Field where
  | absent
  | digits (n : ℕ) (h : n < 2 ^ 31)
  | star

/-- A directive. -/
structure Spec where
  flags : List UInt8
  width : Field
  precision : Option Field
  qualifier : Option UInt8
  conversion : UInt8
  flags_mem : ∀ c ∈ flags, c ∈ flagBytes
  width_pos : ∀ h, width ≠ .digits 0 h
  qualifier_mem : ∀ c ∈ qualifier, c = 104 ∨ c = 108 ∨ c = 76
  conversion_ne : conversion ≠ 0
  conversion_mem : conversion ∉ directiveBytes

/-- A byte that is copied, or a directive. -/
inductive Piece where
  | literal (c : UInt8) (hc : c ≠ 0 ∧ c ≠ 37)
  | directive (d : Spec)

/-! ### The bytes -/

lemma decimalGlyph_ne_zero : ∀ d < 10, decimalGlyph d ≠ 0 := by decide

/-- The bytes of a number. -/
def Field.render : Field → List UInt8
  | .absent => []
  | .digits n _ => numeral 10 decimalGlyph n
  | .star => [42]

/-- The bytes of a precision. -/
def renderPrecision : Option Field → List UInt8
  | none => []
  | some f => 46 :: f.render

/-- The bytes of a directive behind the `%`. -/
def Spec.render (d : Spec) : List UInt8 :=
  d.flags ++ d.width.render ++ renderPrecision d.precision ++ d.qualifier.toList ++ [d.conversion]

/-- The bytes of a piece. -/
def Piece.render : Piece → List UInt8
  | .literal c _ => [c]
  | .directive d => 37 :: d.render

/-! ### The meaning -/

/-- The flags, whose order and number does not matter. -/
def flagsOf (flags : List UInt8) : Flags where
  zeropad := decide (48 ∈ flags)
  sign := false
  plus := decide (43 ∈ flags)
  space := decide (32 ∈ flags)
  left := decide (45 ∈ flags)
  small := false
  special := decide (35 ∈ flags)

/-- The number, which may be the next argument; -1 stands for none. -/
def Field.value : Field → Vsprintf → ℤ × Vsprintf
  | .absent, s => (-1, s)
  | .digits n _, s => (n, s)
  | .star, s => (toInt (vaArg s).1, (vaArg s).2)

/-- The width and the flags: an argument that is negative stands for a flag and a width. -/
def Spec.widthValue (d : Spec) (s : Vsprintf) : ℤ × Flags × Vsprintf :=
  let (w, s) := d.width.value s
  match d.width with
  | .star => if w < 0 then (wrapInt (-w), { flagsOf d.flags with left := true }, s)
      else (w, flagsOf d.flags, s)
  | _ => (w, flagsOf d.flags, s)

/-- The precision: a point alone is a zero, and so is an argument that is negative. -/
def precisionValue : Option Field → Vsprintf → ℤ × Vsprintf
  | none, s => (-1, s)
  | some f, s => (max (f.value s).1 0, (f.value s).2)

/-- What the directive asks for, and the state when it has taken its arguments. -/
def Spec.directive (d : Spec) (s : Vsprintf) : Directive × Vsprintf :=
  let (w, flags, s) := d.widthValue s
  let (p, s) := precisionValue d.precision s
  (⟨flags, w, p, d.qualifier⟩, s)

/-- What a piece does. -/
def Piece.run : Piece → Vsprintf → Option Vsprintf
  | .literal c _, s => some (put [c] s)
  | .directive d, s => (convert (d.directive s).1 [d.conversion] (d.directive s).2).map Prod.snd

lemma Field.render_ne (f : Field) : ∀ c ∈ f.render, c ≠ 0 := by
  intro c hc
  cases f with
  | absent => exact absurd hc List.not_mem_nil
  | digits n h =>
      rcases List.mem_append.mp hc with hmem | hmem
      · obtain ⟨d, hd, rfl⟩ := List.mem_map.mp hmem
        exact decimalGlyph_ne_zero d (Nat.digits_lt_base (by omega) (List.mem_reverse.mp hd))
      · rw [List.mem_singleton.mp hmem]
        exact decimalGlyph_ne_zero _ (Nat.mod_lt _ (by omega))
  | star =>
      rw [List.mem_singleton.mp hc]
      decide

lemma Spec.render_ne (d : Spec) : ∀ c ∈ d.render, c ≠ 0 := by
  intro c hc
  simp only [Spec.render, List.mem_append, List.mem_singleton, Option.mem_toList] at hc
  rcases hc with (((hc | hc) | hc) | hc) | rfl
  · have hmem := d.flags_mem c hc
    simp only [flagBytes, List.mem_cons, List.not_mem_nil, or_false] at hmem
    rcases hmem with rfl | rfl | rfl | rfl | rfl
    all_goals decide
  · exact d.width.render_ne c hc
  · cases hp : d.precision with
    | none =>
        rw [hp] at hc
        exact absurd hc List.not_mem_nil
    | some f =>
        rw [hp] at hc
        rcases List.mem_cons.mp hc with rfl | hc
        · decide
        · exact f.render_ne c hc
  · rcases d.qualifier_mem c hc with rfl | rfl | rfl
    all_goals decide
  · exact d.conversion_ne

lemma Piece.render_ne (p : Piece) : ∀ c ∈ p.render, c ≠ 0 := by
  intro c hc
  cases p with
  | literal c' h =>
      rw [List.mem_singleton.mp hc]
      exact h.1
  | directive d =>
      rcases List.mem_cons.mp hc with rfl | hc
      · decide
      · exact d.render_ne c hc

/-- The format with these pieces. -/
def format (ps : List Piece) : CString where
  bytes := ps.flatMap Piece.render
  nonzero c hc := by
    obtain ⟨p, -, hc⟩ := List.mem_flatMap.mp hc
    exact p.render_ne c hc

variable {c : UInt8} {d : Directive} {fmt l : List UInt8} {s s' : Vsprintf} {n m : ℕ} {flags : Flags}

/-! ### The parts of a directive -/

lemma decimalValue_glyph : ∀ d < 10, decimalValue (decimalGlyph d) = some d := by decide

lemma decimalGlyph_notMem : ∀ d < 10, 0 < d → decimalGlyph d ∉ flagBytes := by decide

lemma decimalGlyph_ne_star : ∀ d < 10, decimalGlyph d ≠ 42 := by decide

lemma isDigit_decimalGlyph : ∀ d < 10, isDigit (decimalGlyph d) = true := by decide

/-- **The digits of a number are read** as it is, if it is an `int`. -/
lemma skipAtoi_eq (h : scanNumeral 10 decimalValue n l = (m, fmt)) (hm : m < 2 ^ 31) :
    skipAtoi n l = ((m : ℤ), fmt) := by
  induction l generalizing n with
  | nil =>
      obtain ⟨rfl, rfl⟩ := Prod.mk.inj h
      rfl
  | cons c l ih =>
      rw [scanNumeral, decimalValue] at h
      by_cases hc : isDigit c = true
      · rw [if_pos hc] at h
        replace h : scanNumeral 10 decimalValue (n * 10 + (c.toNat - 48)) l = (m, fmt) := h
        have hle : n * 10 + (c.toNat - 48) ≤ m := by
          have hle : n * 10 + (c.toNat - 48)
              ≤ (scanNumeral 10 decimalValue (n * 10 + (c.toNat - 48)) l).1 := le_scanNumeral (by omega)
          rwa [h] at hle
        have hchar : 48 ≤ c.toNat := by
          have hbyte : 48 ≤ c ∧ c ≤ 57 := by simpa [isDigit] using hc
          exact UInt8.le_iff_toNat_le.mp hbyte.1
        have hwrap : wrapInt ((n : ℤ) * 10 + c.toNat - 48) = ((n * 10 + (c.toNat - 48) : ℕ) : ℤ) := by
          rw [wrapInt]
          omega
        rw [skipAtoi, if_pos hc, hwrap]
        exact ih h
      · rw [if_neg hc] at h
        obtain ⟨rfl, rfl⟩ := Prod.mk.inj h
        rw [skipAtoi, if_neg hc]

/-- A decimal numeral is read up to the byte behind it. -/
lemma skipAtoi_numeral (hn : n < 2 ^ 31) (hc : ¬ isDigit c = true) :
    skipAtoi 0 (numeral 10 decimalGlyph n ++ c :: fmt) = ((n : ℤ), c :: fmt) := by
  have hrest : ∀ x ∈ (c :: fmt).head?, decimalValue x = none := by
    intro x hx
    obtain rfl : c = x := Option.some.inj hx
    rw [decimalValue, if_neg hc]
  have h : scanNumeral 10 decimalValue 0
      (List.replicate 0 (decimalGlyph 0) ++ numeral 10 decimalGlyph n ++ c :: fmt) = (n, c :: fmt) :=
    scan_numeral (by omega) decimalValue_glyph 0 hrest
  exact skipAtoi_eq (n := 0) (by simpa using h) hn

/-- **Flags are collected** up to the first byte that is none. -/
lemma parseFlags_append (hl : ∀ c ∈ l, c ∈ flagBytes) (hc : c ∉ flagBytes) :
    parseFlags flags (l ++ c :: fmt) =
      (⟨flags.zeropad || decide (48 ∈ l), flags.sign, flags.plus || decide (43 ∈ l),
        flags.space || decide (32 ∈ l), flags.left || decide (45 ∈ l), flags.small,
        flags.special || decide (35 ∈ l)⟩, c :: fmt) := by
  induction l generalizing flags with
  | nil =>
      simp only [flagBytes, List.mem_cons, List.not_mem_nil, or_false, not_or] at hc
      simp [parseFlags, hc]
  | cons x l ih =>
      have hx := hl x List.mem_cons_self
      have hl' : ∀ c ∈ l, c ∈ flagBytes := fun c hc => hl c (List.mem_cons_of_mem x hc)
      simp only [flagBytes, List.mem_cons, List.not_mem_nil, or_false] at hx
      rcases hx with rfl | rfl | rfl | rfl | rfl
      all_goals simp [parseFlags, ih hl']

lemma parseFlags_render (hl : ∀ c ∈ l, c ∈ flagBytes) (hc : c ∉ flagBytes) :
    parseFlags .none (l ++ c :: fmt) = (flagsOf l, c :: fmt) := by
  rw [parseFlags_append hl hc]
  simp [flagsOf, Flags.none]

/-- The first byte of digits. -/
lemma exists_numeral_cons (n : ℕ) :
    ∃ d l, d < 10 ∧ (0 < n → 0 < d) ∧ numeral 10 decimalGlyph n = decimalGlyph d :: l := by
  rcases Nat.eq_zero_or_pos n with rfl | hn
  · exact ⟨0, [], by omega, fun h => h, numeral_of_lt (by omega)⟩
  · obtain ⟨d, hpos, hd, hhead⟩ : ∃ d, 0 < d ∧ d < 10 ∧
        (numeral 10 decimalGlyph n).head? = some (decimalGlyph d) := head_numeral (by omega) hn
    obtain ⟨l, hl⟩ := List.head?_eq_some_iff.mp hhead
    exact ⟨d, l, hd, fun _ => hpos, hl⟩

/-- **A number is recognised** up to the byte behind it. -/
lemma parseNumber_render (f : Field) (hc : ¬ isDigit c = true) (hstar : c ≠ 42) :
    parseNumber (f.render ++ c :: fmt) s = ((f.value s).1, c :: fmt, (f.value s).2) := by
  cases f with
  | absent =>
      change parseNumber (c :: fmt) s = (-1, c :: fmt, s)
      simp only [parseNumber]
      rw [if_neg hc, if_neg hstar]
  | digits n hn =>
      obtain ⟨d, l, hd, -, hcons⟩ := exists_numeral_cons n
      have hskip : skipAtoi 0 (numeral 10 decimalGlyph n ++ c :: fmt) = ((n : ℤ), c :: fmt) :=
        skipAtoi_numeral hn hc
      rw [hcons] at hskip
      rw [Field.render, hcons]
      change parseNumber (decimalGlyph d :: (l ++ c :: fmt)) s = _
      simp only [parseNumber]
      rw [if_pos (isDigit_decimalGlyph d hd), ← List.cons_append, hskip]
      rfl
  | star => rfl

variable (fmt) in
/-- The width starts with an asterisk if it is an argument. -/
lemma head_render (f : Field) (hstar : c ≠ 42) :
    (f.render ++ c :: fmt).head? = some 42 ↔ f = .star := by
  cases f with
  | absent => simpa [Field.render] using hstar
  | digits n hn =>
      obtain ⟨d, l, hd, -, hcons⟩ := exists_numeral_cons n
      simp [Field.render, hcons, decimalGlyph_ne_star d hd]
  | star => simp [Field.render]

variable (fmt s) in
/-- **A width is recognised.** -/
lemma parseWidth_render (d : Spec) (hc : ¬ isDigit c = true) (hstar : c ≠ 42) :
    parseWidth (flagsOf d.flags) (d.width.render ++ c :: fmt) s =
      ((d.widthValue s).1, (d.widthValue s).2.1, c :: fmt, (d.widthValue s).2.2) := by
  have hhead := head_render fmt d.width hstar
  simp only [parseWidth, parseNumber_render d.width hc hstar, Spec.widthValue]
  cases hw : d.width with
  | absent =>
      rw [hw] at hhead
      rw [if_neg fun h => Field.noConfusion (hhead.mp h.1)]
  | digits n hn =>
      rw [hw] at hhead
      rw [if_neg fun h => Field.noConfusion (hhead.mp h.1)]
  | star =>
      rw [hw] at hhead
      have hthen := hhead.mpr rfl
      by_cases hneg : (Field.star.value s).1 < 0
      · simp only [if_pos (And.intro hthen hneg), if_pos hneg]
      · simp only [if_neg fun h : _ ∧ (Field.star.value s).1 < 0 => hneg h.2, if_neg hneg]

variable (fmt s) in
/-- **A precision is recognised.** -/
lemma parsePrecision_render (p : Option Field) (hc : ¬ isDigit c = true) (hstar : c ≠ 42)
    (hpoint : c ≠ 46) : parsePrecision (renderPrecision p ++ c :: fmt) s =
      ((precisionValue p s).1, c :: fmt, (precisionValue p s).2) := by
  cases p with
  | none =>
      rw [parsePrecision, if_neg (by simpa [renderPrecision] using hpoint)]
      rfl
  | some f =>
      have hpos : (if (f.value s).1 < 0 then 0 else (f.value s).1) = max (f.value s).1 0 := by
        rw [max_def]
        split_ifs <;> omega
      rw [renderPrecision, List.cons_append, parsePrecision, List.head?_cons, if_pos rfl, List.tail_cons,
        parseNumber_render f hc hstar]
      simp only [hpos]
      rfl

variable (fmt) in
/-- A qualifier is recognised. -/
lemma parseQualifier_render (d : Spec) :
    parseQualifier (d.qualifier.toList ++ d.conversion :: fmt) = (d.qualifier, d.conversion :: fmt) := by
  cases hq : d.qualifier with
  | none =>
      have hconv := d.conversion_mem
      simp only [directiveBytes, List.mem_cons, List.not_mem_nil, or_false, not_or] at hconv
      simp [parseQualifier, hconv]
  | some c =>
      have hc := d.qualifier_mem c hq
      simp [parseQualifier, hc]

/-! ### Formats -/

/-- **A directive is recognised** in front of any bytes. -/
lemma parseDirective_render (d : Spec) (fmt : List UInt8) (s : Vsprintf) :
    parseDirective (d.render ++ fmt) s =
      ((d.directive s).1, d.conversion :: fmt, (d.directive s).2) := by
  have hconv := d.conversion_mem
  have hconvDigit : ¬ isDigit d.conversion = true := fun h => hconv (mem_directiveBytes_of_isDigit h)
  simp only [directiveBytes, List.mem_cons, List.not_mem_nil, or_false, not_or] at hconv
  -- the first byte behind the precision, behind the width, and behind the flags
  obtain ⟨c₃, l₃, h₃, hc₃⟩ : ∃ c l, d.qualifier.toList ++ d.conversion :: fmt = c :: l ∧
      c ∉ flagBytes ∧ ¬ isDigit c = true ∧ c ≠ 42 ∧ c ≠ 46 := by
    cases hq : d.qualifier with
    | none => exact ⟨_, _, rfl, by simp [flagBytes, hconv], hconvDigit, by simp [hconv], by simp [hconv]⟩
    | some c =>
        refine ⟨c, _, rfl, ?_⟩
        rcases d.qualifier_mem c hq with rfl | rfl | rfl
        · decide
        · decide
        · decide
  obtain ⟨c₂, l₂, h₂, hc₂⟩ : ∃ c l, renderPrecision d.precision ++ c₃ :: l₃ = c :: l ∧
      c ∉ flagBytes ∧ ¬ isDigit c = true ∧ c ≠ 42 := by
    cases d.precision with
    | none => exact ⟨c₃, l₃, rfl, hc₃.1, hc₃.2.1, hc₃.2.2.1⟩
    | some f => exact ⟨46, _, rfl, by decide⟩
  obtain ⟨c₁, l₁, h₁, hc₁⟩ : ∃ c l, d.width.render ++ c₂ :: l₂ = c :: l ∧ c ∉ flagBytes := by
    cases hw : d.width with
    | absent => exact ⟨c₂, l₂, rfl, hc₂.1⟩
    | digits n hn =>
        obtain ⟨k, l, hk, hpos, hcons⟩ := exists_numeral_cons n
        have hn0 : 0 < n := Nat.pos_of_ne_zero fun h => d.width_pos (h ▸ hn) (by subst h; exact hw)
        exact ⟨decimalGlyph k, _, by rw [Field.render, hcons]; rfl, decimalGlyph_notMem k hk (hpos hn0)⟩
    | star => exact ⟨42, _, rfl, by decide⟩
  have hrender : d.render ++ fmt = d.flags ++ (d.width.render ++ (renderPrecision d.precision
      ++ (d.qualifier.toList ++ d.conversion :: fmt))) := by
    simp only [Spec.render, List.append_assoc, List.singleton_append]
  have hwidth := parseWidth_render l₂ s d hc₂.2.1 hc₂.2.2
  have hprecision := parsePrecision_render l₃ (d.widthValue s).2.2 d.precision
    hc₃.2.1 hc₃.2.2.1 hc₃.2.2.2
  have hqualifier := parseQualifier_render fmt d
  rw [h₁] at hwidth
  rw [h₂] at hprecision
  rw [h₃] at hqualifier
  rw [hrender, h₃, h₂, h₁, parseDirective, parseFlags_render d.flags_mem hc₁]
  simp only [hwidth, hprecision, hqualifier]
  rfl

/-- A conversion does not look behind its character. -/
lemma convert_cons (d : Directive) (c : UInt8) (fmt : List UInt8) (s : Vsprintf) :
    convert d (c :: fmt) s = (convert d [c] s).map fun r => (fmt, r.2) := by
  simp only [convert, apply_ite (Option.map fun r : List UInt8 × Vsprintf => (fmt, r.2)), Option.map_some,
    Option.map_map]
  rfl

/-- **The loop runs the pieces**, with any fuel that is enough for their bytes. -/
lemma vsprintfLoop_render (ps : List Piece) (hn : (ps.flatMap Piece.render).length < n) :
    vsprintfLoop n (ps.flatMap Piece.render) s = ps.foldlM (fun s p => p.run s) s := by
  induction ps generalizing n s with
  | nil =>
      obtain ⟨n, rfl⟩ := Nat.exists_eq_add_one.mpr hn
      rfl
  | cons p ps ih =>
      rw [List.flatMap_cons] at hn ⊢
      rw [List.length_append] at hn
      obtain ⟨n, rfl⟩ : ∃ k, n = k + 1 := Nat.exists_eq_add_one.mpr (by omega)
      rw [List.foldlM_cons]
      cases p with
      | literal c hc =>
          rw [Piece.render, List.singleton_append, vsprintfLoop_other hc.2]
          exact ih (by simp only [Piece.render, List.length_singleton] at hn; omega)
      | directive d =>
          have hlen : 0 < (Piece.directive d).render.length := by simp [Piece.render]
          rw [Piece.render, List.cons_append, vsprintfLoop_percent, parseDirective_render, convert_cons,
            Piece.run]
          cases hconvert : convert (d.directive s).1 [d.conversion] (d.directive s).2 with
          | none => rfl
          | some r => exact ih (by omega)

/-- **A format does what its pieces do**, one after the other, each on the memory and the arguments that
the ones before it have left, and fails where one of them fails. -/
theorem vsprintf_format (ps : List Piece) (mem : Bytes) (args : ℕ) :
    vsprintf (format ps) mem args = ps.foldlM (fun s p => p.run s) ⟨mem, args, []⟩ :=
  vsprintfLoop_render ps (Nat.lt_succ_self _)

end Printf

end Matanos
