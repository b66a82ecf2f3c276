import Matanos.Drivers.Printf

/-!
Which strings the system call `print_string` prints as they are.

`print_string` of `cpu/syscall.c` passes its argument to `printf` as the format, with no arguments behind
it.

* `Reacts`: the bytes that `vsprintf` reacts to behind a `%`; `Plain`: a string with none of them there;
* `vsprintfLoop_plain`: a plain string is copied;
* `directive_writes`: at any other place an argument is fetched, or less is written than is read;
* `print_string_verbatim_iff`: the plain strings are those that are printed as they are.
-/

namespace Matanos

open Lib

namespace Printf

/-- The bytes of a flag, a width, a precision or a qualifier. -/
def directiveBytes : List UInt8 :=
  [45, 43, 32, 35, 48, 49, 50, 51, 52, 53, 54, 55, 56, 57, 42, 46, 104, 108, 76]

/-- The bytes of a conversion. -/
def conversionBytes : List UInt8 := [99, 115, 112, 110, 37, 111, 120, 88, 100, 105, 117]

/-- `vsprintf` reacts to the byte behind a `%`. -/
def Reacts (c : UInt8) : Prop := c ∈ directiveBytes ∨ c ∈ conversionBytes

/-- Every `%` is the last byte, or in front of one that `vsprintf` does not react to. -/
def Plain : List UInt8 → Prop
  | [] => True
  | c :: fmt => (c = 37 → ∀ c' ∈ fmt.head?, ¬ Reacts c') ∧ Plain fmt

/-- `print_string`. -/
def printString (str : CString) (mem : Bytes) (args : ℕ) (screen : Vga) : Option (Vsprintf × Vga) :=
  printf str mem args screen

/-- The string is printed as it is: it fits in the buffer of `printf`, the effect on the screen is that of
`kprint`, and nothing else is written or read. -/
def PrintsVerbatim (str : CString) (mem : Bytes) (args : ℕ) (screen : Vga) : Prop :=
  ∃ s screen', printString str mem args screen = some (s, screen') ∧
    s.str = str.bytes ∧ s.str.length < 1024 ∧ screen' = screen.kprint str ∧ s.mem = mem ∧
    s.args = args

variable {c : UInt8} {d : Directive} {fmt fmt' : List UInt8} {s s' : Vsprintf} {n : ℕ}

/-! ### Plain strings -/

lemma mem_directiveBytes_of_isDigit (hc : isDigit c = true) : c ∈ directiveBytes := by
  have hall : ∀ k < 256, isDigit (UInt8.ofNat k) = true → UInt8.ofNat k ∈ directiveBytes := by
    decide +kernel
  have hbyte := hall c.toNat c.toNat_lt
  rw [UInt8.ofNat_toNat] at hbyte
  exact hbyte hc

/-- Nothing is parsed in front of a byte of no directive. -/
lemma parseDirective_cons (hc : c ∉ directiveBytes) :
    parseDirective (c :: fmt) s = (⟨.none, -1, -1, .none⟩, c :: fmt, s) := by
  have hdigit : ¬ isDigit c = true := fun h => hc (mem_directiveBytes_of_isDigit h)
  simp only [directiveBytes, List.mem_cons, List.not_mem_nil, or_false, not_or] at hc
  simp [parseDirective, parseFlags, parseWidth, parseNumber, parsePrecision, parseQualifier, hc, hdigit]

/-- The default conversion. -/
lemma convert_default (hc : c ∉ conversionBytes) :
    convert d (c :: fmt) s = some (fmt, put [37, c] s) := by
  simp only [conversionBytes, List.mem_cons, List.not_mem_nil, or_false, not_or] at hc
  simp only [convert, hc, if_false, or_self]

lemma put_put {l l' : List UInt8} : put l' (put l s) = put (l ++ l') s := by
  simp only [put, List.append_assoc]

/-- **A plain string is copied.** -/
lemma vsprintfLoop_plain (h : Plain fmt) (hn : fmt.length < n) :
    vsprintfLoop n fmt s = some (put fmt s) := by
  induction n generalizing fmt s with
  | zero => exact absurd hn (Nat.not_lt_zero _)
  | succ n ih =>
      cases fmt with
      | nil => simp [vsprintfLoop, put]
      | cons c fmt =>
          obtain ⟨hc, hrest⟩ := h
          rw [List.length_cons] at hn
          by_cases hpercent : c = 37
          · subst hpercent
            rw [vsprintfLoop_percent]
            cases fmt with
            | nil =>
                have hend : vsprintfLoop n [] (put [37] s) = some (put [] (put [37] s)) :=
                  ih trivial (by simpa using hn)
                rw [put_put] at hend
                exact hend
            | cons c' fmt =>
                have hplain := hc rfl c' rfl
                rw [Reacts, not_or] at hplain
                rw [List.length_cons] at hn
                rw [parseDirective_cons hplain.1]
                simp only [convert_default hplain.2, Option.bind_some]
                rw [ih hrest.2 (by omega), put_put]
                rfl
          · rw [vsprintfLoop_other hpercent, ih hrest (by omega), put_put]
            rfl

/-! ### Other strings -/

/-- From one point of `vsprintf` to another an argument is fetched, or at most `k` bytes more are written
than are read. -/
def WritesAtMost (k : ℕ) (fmt : List UInt8) (s : Vsprintf) (fmt' : List UInt8) (s' : Vsprintf) : Prop :=
  s.args < s'.args ∨ ∃ out, s' = put out s ∧ out.length + fmt'.length ≤ fmt.length + k

lemma WritesAtMost.args_le {k : ℕ} (h : WritesAtMost k fmt s fmt' s') : s.args ≤ s'.args := by
  rcases h with hlt | ⟨out, rfl, -⟩
  · exact hlt.le
  · exact le_rfl

lemma writesAtMost_put {k : ℕ} {out : List UInt8} (h : out.length + fmt'.length ≤ fmt.length + k) :
    WritesAtMost k fmt s fmt' (put out s) := Or.inr ⟨out, rfl, h⟩

/-- An argument is fetched. -/
lemma writesAtMost_fetch {k : ℕ} (h : s'.args = s.args + 4) : WritesAtMost k fmt s fmt' s' :=
  Or.inl (by omega)

lemma convertChar_args : (convertChar d s).args = s.args + 4 := rfl

lemma convertString_args (h : convertString d s = some s') : s'.args = s.args + 4 := by
  obtain ⟨len, -, rfl⟩ := Option.map_eq_some_iff.mp h
  rfl

lemma convertPointer_args : (convertPointer d s).args = s.args + 4 := rfl

lemma convertCount_args : (convertCount s).args = s.args + 4 := rfl

lemma convertInteger_args {base : ℕ} {flags : Flags} :
    (convertInteger d base flags s).args = s.args + 4 := rfl

/-- **A conversion** writes at most one byte more than it reads, and no more where it is one of those that
`vsprintf` has. -/
lemma convert_writes (h : convert d (c :: fmt) s = some (fmt', s')) :
    WritesAtMost (if c ∈ conversionBytes then 0 else 1) (c :: fmt) s fmt' s' := by
  by_cases hc : c ∈ conversionBytes
  · rw [if_pos hc]
    simp only [conversionBytes, List.mem_cons, List.not_mem_nil, or_false] at hc
    rcases hc with rfl | rfl | rfl | rfl | rfl | rfl | rfl | rfl | rfl | rfl | rfl
    · obtain ⟨rfl, rfl⟩ := Prod.mk.inj (Option.some.inj h)
      exact writesAtMost_fetch convertChar_args
    · obtain ⟨s₁, hs₁, heq⟩ := Option.map_eq_some_iff.mp h
      obtain ⟨rfl, rfl⟩ := Prod.mk.inj heq
      exact writesAtMost_fetch (convertString_args hs₁)
    · obtain ⟨rfl, rfl⟩ := Prod.mk.inj (Option.some.inj h)
      exact writesAtMost_fetch convertPointer_args
    · obtain ⟨rfl, rfl⟩ := Prod.mk.inj (Option.some.inj h)
      exact writesAtMost_fetch convertCount_args
    · obtain ⟨rfl, rfl⟩ := Prod.mk.inj (Option.some.inj h)
      exact writesAtMost_put (by simp only [List.length_cons, List.length_nil]; omega)
    · obtain ⟨rfl, rfl⟩ := Prod.mk.inj (Option.some.inj h)
      exact writesAtMost_fetch convertInteger_args
    · obtain ⟨rfl, rfl⟩ := Prod.mk.inj (Option.some.inj h)
      exact writesAtMost_fetch convertInteger_args
    · obtain ⟨rfl, rfl⟩ := Prod.mk.inj (Option.some.inj h)
      exact writesAtMost_fetch convertInteger_args
    · obtain ⟨rfl, rfl⟩ := Prod.mk.inj (Option.some.inj h)
      exact writesAtMost_fetch convertInteger_args
    · obtain ⟨rfl, rfl⟩ := Prod.mk.inj (Option.some.inj h)
      exact writesAtMost_fetch convertInteger_args
    · obtain ⟨rfl, rfl⟩ := Prod.mk.inj (Option.some.inj h)
      exact writesAtMost_fetch convertInteger_args
  · rw [if_neg hc]
    rw [convert_default hc] at h
    obtain ⟨rfl, rfl⟩ := Prod.mk.inj (Option.some.inj h)
    exact writesAtMost_put (by simp only [List.length_cons, List.length_nil]; omega)

lemma convert_writes_one (h : convert d fmt s = some (fmt', s')) : WritesAtMost 1 fmt s fmt' s' := by
  cases fmt with
  | nil =>
      obtain ⟨rfl, rfl⟩ := Prod.mk.inj (Option.some.inj h)
      exact writesAtMost_put le_rfl
  | cons c fmt =>
      rcases convert_writes h with hlt | ⟨out, hout, hle⟩
      · exact Or.inl hlt
      · refine Or.inr ⟨out, hout, hle.trans ?_⟩
        split_ifs
        · exact Nat.le_succ _
        · exact le_rfl

/-- The bytes of a directive, by the part of it. -/
lemma directiveBytes_cases (hc : c ∈ directiveBytes) :
    c ∈ [45, 43, 32, 35, 48] ∨ (isDigit c = true ∨ c = 42) ∨ c = 46 ∨
      (c = 104 ∨ c = 108 ∨ c = 76) := by
  have hall : ∀ k < 256, UInt8.ofNat k ∈ directiveBytes →
      UInt8.ofNat k ∈ ([45, 43, 32, 35, 48] : List UInt8) ∨
        (isDigit (UInt8.ofNat k) = true ∨ UInt8.ofNat k = 42) ∨ UInt8.ofNat k = 46 ∨
        (UInt8.ofNat k = 104 ∨ UInt8.ofNat k = 108 ∨ UInt8.ofNat k = 76) := by
    decide +kernel
  have hbyte := hall c.toNat c.toNat_lt
  rw [UInt8.ofNat_toNat] at hbyte
  exact hbyte hc

lemma parseFlags_shrinks {flags : Flags} (hc : c ∈ [45, 43, 32, 35, 48]) :
    (parseFlags flags (c :: fmt)).2.length ≤ fmt.length := by
  rw [parseFlags]
  split_ifs with h1 h2 h3 h4 h5
  · exact parseFlags_length
  · exact parseFlags_length
  · exact parseFlags_length
  · exact parseFlags_length
  · exact parseFlags_length
  · simp [h1, h2, h3, h4, h5] at hc

lemma parseNumber_shrinks (hc : isDigit c = true ∨ c = 42) :
    (parseNumber (c :: fmt) s).2.1.length ≤ fmt.length := by
  by_cases hdigit : isDigit c = true
  · simp only [parseNumber, skipAtoi, if_pos hdigit]
    exact skipAtoi_length
  · simp only [parseNumber, if_neg hdigit, if_pos (hc.resolve_left hdigit)]
    exact le_rfl

/-- A byte of a directive is skipped. -/
lemma parseDirective_shrinks (hc : c ∈ directiveBytes) :
    (parseDirective (c :: fmt) s).2.1.length ≤ fmt.length := by
  obtain ⟨flags, fmt₁, hflags⟩ : ∃ flags fmt₁, parseFlags .none (c :: fmt) = (flags, fmt₁) := ⟨_, _, rfl⟩
  obtain ⟨w, flags', fmt₂, s₂, hwidth⟩ : ∃ w flags' fmt₂ s₂,
    parseWidth flags fmt₁ s = (w, flags', fmt₂, s₂) := ⟨_, _, _, _, rfl⟩
  obtain ⟨p, fmt₃, s₃, hprecision⟩ : ∃ p fmt₃ s₃, parsePrecision fmt₂ s₂ = (p, fmt₃, s₃) :=
    ⟨_, _, _, rfl⟩
  have hresult : (parseDirective (c :: fmt) s).2.1 = (parseQualifier fmt₃).2 := by
    simp only [parseDirective, hflags, hwidth, hprecision]
  have h₄ : (parseQualifier fmt₃).2.length ≤ fmt₃.length := parseQualifier_length
  have h₃ : fmt₃.length ≤ fmt₂.length := by
    have h := (parsePrecision_consumes fmt₂ s₂).length
    rwa [hprecision] at h
  have h₂ : fmt₂.length ≤ fmt₁.length := by
    have h := (parseWidth_consumes flags fmt₁ s).length
    rwa [hwidth] at h
  rw [hresult]
  by_cases hflag : c ∈ [45, 43, 32, 35, 48]
  · have h₁ : (parseFlags .none (c :: fmt)).2.length ≤ fmt.length := parseFlags_shrinks hflag
    rw [hflags] at h₁
    exact h₄.trans (h₃.trans (h₂.trans h₁))
  · -- the byte is in front of the width, or else of the precision or of the qualifier
    have hfirst : fmt₁ = c :: fmt := by
      simp only [List.mem_cons, List.not_mem_nil, or_false, not_or] at hflag
      simp only [parseFlags, hflag, if_false] at hflags
      exact (Prod.mk.inj hflags).2.symm
    subst hfirst
    by_cases hnumber : isDigit c = true ∨ c = 42
    · have hparsed : fmt₂ = (parseNumber (c :: fmt) s).2.1 := by
        rw [← parseWidth_fmt flags, hwidth]
      have h₂' : (parseNumber (c :: fmt) s).2.1.length ≤ fmt.length := parseNumber_shrinks hnumber
      rw [← hparsed] at h₂'
      omega
    · rw [not_or] at hnumber
      have hsecond : fmt₂ = c :: fmt := by
        have hfmt := parseWidth_fmt flags (c :: fmt) s
        rw [hwidth] at hfmt
        simp only [parseNumber, hnumber.1, hnumber.2, if_false, Bool.false_eq_true] at hfmt
        exact (Prod.mk.inj hfmt).1
      subst hsecond
      by_cases hdot : c = 46
      · subst hdot
        have h₃' := (parseNumber_consumes fmt s₂).length
        have hthird : fmt₃ = (parseNumber fmt s₂).2.1 := by
          have hfmt : (parsePrecision (46 :: fmt) s₂).2.1 = (parseNumber fmt s₂).2.1 := rfl
          rw [← hfmt, hprecision]
        rw [← hthird] at h₃'
        omega
      · have hthird : fmt₃ = c :: fmt := by
          rw [parsePrecision, if_neg (by simpa using hdot)] at hprecision
          exact (Prod.mk.inj (Prod.mk.inj hprecision).2).1.symm
        subst hthird
        have hqualifier : c = 104 ∨ c = 108 ∨ c = 76 := by
          rcases directiveBytes_cases hc with h | h | h | h
          · exact absurd h hflag
          · exact absurd h (not_or.mpr hnumber)
          · exact absurd h hdot
          · exact h
        simp only [parseQualifier, if_pos hqualifier]
        exact le_rfl

/-- **A directive that `vsprintf` reacts to** fetches an argument, or writes less than it reads. -/
lemma directive_writes (hc : Reacts c) (h : convert (parseDirective (c :: fmt) s).1
    (parseDirective (c :: fmt) s).2.1 (parseDirective (c :: fmt) s).2.2 = some (fmt', s')) :
    WritesAtMost 0 (c :: fmt) s fmt' s' := by
  by_cases hdirective : c ∈ directiveBytes
  · obtain ⟨hlen, hargs, hsame⟩ := parseDirective_consumes (c :: fmt) s
    have hshrinks : (parseDirective (c :: fmt) s).2.1.length ≤ fmt.length :=
      parseDirective_shrinks hdirective
    have hconvert := convert_writes_one h
    rcases Nat.eq_or_lt_of_le hargs with heq | hlt
    · rw [hsame, ← heq] at hconvert
      rcases hconvert with hlt | ⟨out, hout, hle⟩
      · exact Or.inl hlt
      · exact Or.inr ⟨out, hout, by rw [List.length_cons]; omega⟩
    · exact Or.inl (lt_of_lt_of_le hlt hconvert.args_le)
  · have hconversion : c ∈ conversionBytes := hc.resolve_left hdirective
    rw [parseDirective_cons hdirective] at h
    have hconvert := convert_writes h
    rwa [if_pos hconversion] at hconvert

/-- **The loop** fetches an argument, or writes at most as much as it reads, and as much for plain strings
only. -/
lemma vsprintfLoop_writes (h : vsprintfLoop n fmt s = some s') :
    s.args < s'.args ∨
      ∃ out, s' = put out s ∧ out.length ≤ fmt.length ∧ (out.length = fmt.length → Plain fmt) := by
  induction n generalizing fmt s with
  | zero => cases h
  | succ n ih =>
      cases fmt with
      | nil =>
          obtain rfl := Option.some.inj h
          exact Or.inr ⟨[], by simp [put], le_rfl, fun _ => trivial⟩
      | cons c fmt =>
          by_cases hpercent : c = 37
          · subst hpercent
            rw [vsprintfLoop_percent, Option.bind_eq_some_iff] at h
            obtain ⟨⟨fmt', s₁⟩, hconvert, hloop⟩ := h
            change vsprintfLoop n fmt' s₁ = some s' at hloop
            by_cases hreacts : ∃ c ∈ fmt.head?, Reacts c
            · obtain ⟨c, hhead, hc⟩ := hreacts
              obtain ⟨fmt, rfl⟩ : ∃ fmt₀, fmt = c :: fmt₀ := ⟨_, List.eq_cons_of_mem_head? hhead⟩
              rcases directive_writes hc hconvert with hlt | ⟨out, rfl, hle⟩
              · refine Or.inl (lt_of_lt_of_le hlt ?_)
                rcases ih hloop with hlt' | ⟨out', rfl, -⟩
                · exact hlt'.le
                · exact le_rfl
              · rcases ih hloop with hlt' | ⟨out', rfl, hle', -⟩
                · exact Or.inl hlt'
                · refine Or.inr ⟨out ++ out', put_put, ?_, fun heq => ?_⟩
                  · rw [List.length_append, List.length_cons]
                    omega
                  · rw [List.length_append, List.length_cons] at heq
                    omega
            · have hrest := ih hloop
              cases fmt with
              | nil =>
                  obtain ⟨rfl, rfl⟩ := Prod.mk.inj (Option.some.inj hconvert)
                  rcases hrest with hlt | ⟨out, rfl, hle, -⟩
                  · exact Or.inl hlt
                  · refine Or.inr ⟨[37] ++ out, put_put, by simpa using hle, fun _ => ?_⟩
                    exact ⟨fun _ c hc => absurd hc (by simp), trivial⟩
              | cons c fmt =>
                  have hc : ¬ Reacts c := fun h => hreacts ⟨c, rfl, h⟩
                  rw [Reacts, not_or] at hc
                  rw [parseDirective_cons hc.1] at hconvert
                  simp only [convert_default hc.2] at hconvert
                  obtain ⟨rfl, rfl⟩ := Prod.mk.inj (Option.some.inj hconvert)
                  rcases hrest with hlt | ⟨out, rfl, hle, hplain⟩
                  · exact Or.inl hlt
                  · refine Or.inr ⟨[37, c] ++ out, put_put, by simpa using hle, fun heq => ?_⟩
                    have hrest := hplain (by simpa using heq)
                    refine ⟨fun _ c' hc' => ?_, fun hpercent => absurd ?_ hc.2, hrest⟩
                    · rw [← Option.some.inj hc', Reacts, not_or]
                      exact hc
                    · rw [hpercent]
                      decide
          · rw [vsprintfLoop_other hpercent] at h
            rcases ih h with hlt | ⟨out, rfl, hle, hplain⟩
            · exact Or.inl hlt
            · refine Or.inr ⟨c :: out, put_put, by simpa using hle, fun heq => ?_⟩
              exact ⟨fun hc => absurd hc hpercent, hplain (by simpa using heq)⟩

lemma vsprintf_of_printString {str : CString} {mem : Bytes} {args : ℕ} {screen screen' : Vga}
    (h : printString str mem args screen = some (s, screen')) : vsprintf str mem args = some s := by
  obtain ⟨s', hloop, heq⟩ := Option.map_eq_some_iff.mp h
  obtain ⟨rfl, -⟩ := Prod.mk.inj heq
  exact hloop

/-- **A string is printed as it is** if and only if it is plain. -/
theorem print_string_verbatim_iff (str : CString) (hlen : str.bytes.length < 1024) (mem : Bytes)
    (args : ℕ) (screen : Vga) :
    PrintsVerbatim str mem args screen ↔ Plain str.bytes := by
  constructor
  · rintro ⟨s, screen', hprint, hstr, -, -, -, hargs⟩
    rcases vsprintfLoop_writes (vsprintf_of_printString hprint) with hlt | ⟨out, rfl, -, hplain⟩
    · exact absurd hargs (Nat.ne_of_gt hlt)
    · have hout : out = str.bytes := hstr
      exact hplain (congrArg List.length hout)
  · intro hplain
    have hloop : vsprintf str mem args = some (put str.bytes ⟨mem, args, []⟩) :=
      vsprintfLoop_plain hplain (Nat.lt_succ_self _)
    refine ⟨put str.bytes ⟨mem, args, []⟩, screen.kprint str, ?_, rfl, hlen, rfl, rfl, rfl⟩
    simp only [printString, printf, hloop, Option.map_some, put, List.nil_append, CString.ofBytes_bytes]

/-- A percent sign at the end. -/
theorem print_string_verbatim_percent :
    PrintsVerbatim ⟨[53, 37], by simp⟩ (fun _ => 0) 0x1000 Vga.blank ↔ Plain [53, 37] :=
  print_string_verbatim_iff ⟨[53, 37], by simp⟩ (by decide) (fun _ => 0) 0x1000 Vga.blank

/-- The string `%n` is not printed: a word is fetched, and written to where it points. -/
theorem print_string_stores :
    ¬ PrintsVerbatim ⟨[37, 110], by simp⟩ (fun _ => 0) 0x1000 Vga.blank := by
  rintro ⟨s, screen', hprint, hstr, -⟩
  have hdone : s = convertCount ⟨fun _ => 0, 0x1000, []⟩ :=
    (Option.some.inj (vsprintf_of_printString hprint)).symm
  rw [hdone] at hstr
  exact absurd hstr (by decide)

end Printf

end Matanos
