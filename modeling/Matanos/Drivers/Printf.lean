import Matanos.Lib.Bytes
import Matanos.Lib.Word
import Matanos.Drivers.Keyboard
import Matanos.Drivers.Screen

/-!
The formatted output of `kernel/printf.c`.

The format is the list of its bytes in front of the NUL, and the end of the list is that NUL. The words
that `va_arg` fetches are in memory, one behind the other; what is written to `buf` is a list. An `int`
that is only counted down is an integer.

* `padWhile`, `padBefore`: the loops that fill a field;
* `number`, `vsprintf`, `printf`: the functions; `parseDirective` and `convert` are the two halves of what
  follows a `%`;
* `padWhile_eq`: what a loop writes and leaves;
* `parseDirective_consumes`: what precedes a conversion is skipped, and may fetch arguments.
-/

namespace Matanos

open Lib

namespace Printf

/-- `isdigit`. -/
def isDigit (c : UInt8) : Bool := 48 ≤ c && c ≤ 57

/-- The word as an `int`. -/
def toInt (w : ℕ) : ℤ := if w < 2 ^ 31 then w else (w : ℤ) - 2 ^ 32

/-- The `int` with the same bits. -/
def wrapInt (x : ℤ) : ℤ := (x + 2 ^ 31) % 2 ^ 32 - 2 ^ 31

/-- `skip_atoi`, from the value so far. -/
def skipAtoi : ℤ → List UInt8 → ℤ × List UInt8
  | i, [] => (i, [])
  | i, c :: s => if isDigit c then skipAtoi (wrapInt (i * 10 + c.toNat - 48)) s else (i, c :: s)

/-- The bits of `flags`. -/
structure Flags where
  zeropad : Bool
  sign : Bool
  plus : Bool
  space : Bool
  left : Bool
  small : Bool
  special : Bool
deriving DecidableEq

/-- No flag. -/
def Flags.none : Flags := ⟨false, false, false, false, false, false, false⟩

/-- The loop `while (len < field_width--) *str++ = c`: the field width behind it, and what it writes. -/
def padWhile (c : UInt8) (len fieldWidth : ℤ) : ℤ × List UInt8 :=
  if len < fieldWidth then
    let (fieldWidth, str) := padWhile c len (fieldWidth - 1)
    (fieldWidth, c :: str)
  else (fieldWidth - 1, [])
termination_by (fieldWidth - len).toNat

/-- The loop `while (--field_width > 0) *str++ = c`. -/
def padBefore (c : UInt8) (fieldWidth : ℤ) : ℤ × List UInt8 :=
  if fieldWidth - 1 > 0 then
    let (fieldWidth, str) := padBefore c (fieldWidth - 1)
    (fieldWidth, c :: str)
  else (fieldWidth - 1, [])
termination_by fieldWidth.toNat

/-- The array `digits`. -/
def digit (d : ℕ) : UInt8 := UInt8.ofNat (if d < 10 then 48 + d else 55 + d)

/-- What `number` writes, for the bases 8, 10 and 16. -/
def number (num base : ℕ) (size precision : ℤ) (type : Flags) : List UInt8 :=
  let locase : UInt8 := if type.small then 0x20 else 0
  let type := if type.left then { type with zeropad := false } else type
  let c : UInt8 := if type.zeropad then 48 else 32
  let (sign, num, size) : List UInt8 × ℕ × ℤ :=
    if type.sign then
      if 2 ^ 31 ≤ num then ([45], sub32 0 num, size - 1)
      else if type.plus then ([43], num, size - 1)
      else if type.space then ([32], num, size - 1)
      else ([], num, size)
    else ([], num, size)
  let size :=
    if type.special then if base = 16 then size - 2 else if base = 8 then size - 1 else size
    else size
  let tmp := if num = 0 then [48] else (Nat.digits base num).map fun d => digit d ||| locase
  let i : ℤ := tmp.length
  let precision := if i > precision then i else precision
  let size := size - precision
  let (size, blanks) := if !(type.zeropad || type.left) then padWhile 32 0 size else (size, [])
  let special : List UInt8 :=
    if type.special then
      if base = 8 then [48] else if base = 16 then [48, 88 ||| locase] else []
    else []
  let (size, filled) := if !type.left then padWhile c 0 size else (size, [])
  let (_, zeros) := padWhile 48 i precision
  let (_, behind) := padWhile 32 0 size
  blanks ++ sign ++ special ++ filled ++ zeros ++ tmp.reverse ++ behind

end Printf

/-- `vsprintf` at work: memory, the address of the next argument, and what `buf` holds. -/
structure Vsprintf where
  mem : Bytes
  args : ℕ
  str : List UInt8

/-- What precedes the character of a conversion. -/
structure Directive where
  flags : Printf.Flags
  fieldWidth : ℤ
  precision : ℤ
  qualifier : Option UInt8

namespace Printf

/-- `va_arg` on a word. -/
def vaArg (s : Vsprintf) : ℕ × Vsprintf :=
  (read32 s.mem (s.args % 2 ^ 32), { s with args := s.args + 4 })

/-- `*str++ = c` for some bytes. -/
def put (l : List UInt8) (s : Vsprintf) : Vsprintf := { s with str := s.str ++ l }

/-- The flags behind a `%`. -/
def parseFlags : Flags → List UInt8 → Flags × List UInt8
  | flags, [] => (flags, [])
  | flags, c :: fmt =>
      if c = 45 then parseFlags { flags with left := true } fmt
      else if c = 43 then parseFlags { flags with plus := true } fmt
      else if c = 32 then parseFlags { flags with space := true } fmt
      else if c = 35 then parseFlags { flags with special := true } fmt
      else if c = 48 then parseFlags { flags with zeropad := true } fmt
      else (flags, c :: fmt)

/-- A number in the format, or the next argument for `*`, or else -1. -/
def parseNumber (fmt : List UInt8) (s : Vsprintf) : ℤ × List UInt8 × Vsprintf :=
  match fmt with
  | [] => (-1, [], s)
  | c :: rest =>
      if isDigit c then
        let (n, fmt) := skipAtoi 0 (c :: rest)
        (n, fmt, s)
      else if c = 42 then
        let (n, s) := vaArg s
        (toInt n, rest, s)
      else (-1, c :: rest, s)

/-- The field width; a negative argument is a flag and a width. -/
def parseWidth (flags : Flags) (fmt : List UInt8) (s : Vsprintf) :
    ℤ × Flags × List UInt8 × Vsprintf :=
  let star := fmt.head? = some 42
  let (fieldWidth, fmt, s) := parseNumber fmt s
  if star ∧ fieldWidth < 0 then (wrapInt (-fieldWidth), { flags with left := true }, fmt, s)
  else (fieldWidth, flags, fmt, s)

/-- The precision. -/
def parsePrecision (fmt : List UInt8) (s : Vsprintf) : ℤ × List UInt8 × Vsprintf :=
  if fmt.head? = some 46 then
    let (precision, fmt, s) := parseNumber fmt.tail s
    (if precision < 0 then 0 else precision, fmt, s)
  else (-1, fmt, s)

/-- The qualifier. -/
def parseQualifier (fmt : List UInt8) : Option UInt8 × List UInt8 :=
  match fmt with
  | [] => (.none, [])
  | c :: rest => if c = 104 ∨ c = 108 ∨ c = 76 then (some c, rest) else (.none, c :: rest)

/-- The part of `vsprintf` from the flags to the qualifier. -/
def parseDirective (fmt : List UInt8) (s : Vsprintf) : Directive × List UInt8 × Vsprintf :=
  let (flags, fmt) := parseFlags .none fmt
  let (fieldWidth, flags, fmt, s) := parseWidth flags fmt s
  let (precision, fmt, s) := parsePrecision fmt s
  let (qualifier, fmt) := parseQualifier fmt
  (⟨flags, fieldWidth, precision, qualifier⟩, fmt, s)

/-- `strnlen` of `kernel/util.c`, which does not use its second parameter. -/
def strnlen (s : ℤ → UInt8) (_ : ℤ) : Option ℕ := strlenFrom s (2 ^ 31) 0

/-- The bytes from an address on. -/
def stringAt (m : Bytes) (p : ℕ) (i : ℤ) : UInt8 := m ((p + i) % 2 ^ 32).toNat

/-- The case `'c'`. -/
def convertChar (d : Directive) (s : Vsprintf) : Vsprintf :=
  let (fieldWidth, before) := if !d.flags.left then padBefore 32 d.fieldWidth else (d.fieldWidth, [])
  let (c, s) := vaArg s
  let (_, behind) := padBefore 32 fieldWidth
  put (before ++ UInt8.ofNat c :: behind) s

/-- The case `'s'`; a string that does not end has no length. -/
def convertString (d : Directive) (s : Vsprintf) : Option Vsprintf :=
  let (p, s) := vaArg s
  (strnlen (stringAt s.mem p) d.precision).map fun len : ℕ =>
    let (fieldWidth, before) :=
      if !d.flags.left then padWhile 32 len d.fieldWidth else (d.fieldWidth, [])
    let copy := (List.range len).map fun i : ℕ => stringAt s.mem p i
    let (_, behind) := padWhile 32 len fieldWidth
    put (before ++ copy ++ behind) s

/-- The case `'p'`. -/
def convertPointer (d : Directive) (s : Vsprintf) : Vsprintf :=
  let (fieldWidth, flags) :=
    if d.fieldWidth = -1 then (8, { d.flags with zeropad := true }) else (d.fieldWidth, d.flags)
  let (p, s) := vaArg s
  put (number p 16 fieldWidth d.precision flags) s

/-- The case `'n'`; an `int` and a `long` have the same size. -/
def convertCount (s : Vsprintf) : Vsprintf :=
  let (ip, s) := vaArg s
  { s with mem := write32 s.mem ip s.str.length }

/-- The integer formats. -/
def convertInteger (d : Directive) (base : ℕ) (flags : Flags) (s : Vsprintf) : Vsprintf :=
  let (n, s) := vaArg s
  let num :=
    if d.qualifier = some 108 then n
    else if d.qualifier = some 104 then
      if flags.sign ∧ 2 ^ 15 ≤ n % 2 ^ 16 then n % 2 ^ 16 + (2 ^ 32 - 2 ^ 16) else n % 2 ^ 16
    else n
  put (number num base d.fieldWidth d.precision flags) s

/-- The conversion: what is left of the format, and the result. -/
def convert (d : Directive) (fmt : List UInt8) (s : Vsprintf) : Option (List UInt8 × Vsprintf) :=
  match fmt with
  | [] => some ([], put [37] s)
  | c :: fmt =>
      if c = 99 then some (fmt, convertChar d s)
      else if c = 115 then (convertString d s).map fun s => (fmt, s)
      else if c = 112 then some (fmt, convertPointer d s)
      else if c = 110 then some (fmt, convertCount s)
      else if c = 37 then some (fmt, put [37] s)
      else if c = 111 then some (fmt, convertInteger d 8 d.flags s)
      else if c = 120 then some (fmt, convertInteger d 16 { d.flags with small := true } s)
      else if c = 88 then some (fmt, convertInteger d 16 d.flags s)
      else if c = 100 ∨ c = 105 then some (fmt, convertInteger d 10 { d.flags with sign := true } s)
      else if c = 117 then some (fmt, convertInteger d 10 d.flags s)
      else some (fmt, put [37, c] s)

/-- The loop of `vsprintf`, for less than `n` turns. -/
def vsprintfLoop : ℕ → List UInt8 → Vsprintf → Option Vsprintf
  | 0, _, _ => .none
  | _ + 1, [], s => some s
  | n + 1, c :: fmt, s =>
      if c ≠ 37 then vsprintfLoop n fmt (put [c] s)
      else
        let (d, fmt, s) := parseDirective fmt s
        (convert d fmt s).bind fun (fmt, s) => vsprintfLoop n fmt s

/-- `vsprintf`. -/
def vsprintf (fmt : CString) (mem : Bytes) (args : ℕ) : Option Vsprintf :=
  vsprintfLoop (fmt.bytes.length + 1) fmt.bytes ⟨mem, args, []⟩

/-- `printf`, with the screen. -/
def printf (fmt : CString) (mem : Bytes) (args : ℕ) (screen : Vga) : Option (Vsprintf × Vga) :=
  (vsprintf fmt mem args).map fun s => (s, screen.kprint (.ofBytes (s.str ++ [0])))

/-! ### The loops -/

variable {c : UInt8} {len w i : ℤ} {flags : Flags} {d : Directive} {fmt fmt' : List UInt8}
  {s s' : Vsprintf}

lemma skipAtoi_length : (skipAtoi i fmt).2.length ≤ fmt.length := by
  induction fmt generalizing i with
  | nil => exact le_rfl
  | cons c fmt ih =>
      rw [skipAtoi]
      split_ifs
      · exact (ih).trans (Nat.le_succ _)
      · exact le_rfl

lemma parseFlags_length : (parseFlags flags fmt).2.length ≤ fmt.length := by
  induction fmt generalizing flags with
  | nil => exact le_rfl
  | cons c fmt ih =>
      rw [parseFlags]
      split_ifs
      · exact (ih).trans (Nat.le_succ _)
      · exact (ih).trans (Nat.le_succ _)
      · exact (ih).trans (Nat.le_succ _)
      · exact (ih).trans (Nat.le_succ _)
      · exact (ih).trans (Nat.le_succ _)
      · exact le_rfl

/-- The format is not longer, and only arguments may have been fetched. -/
structure Consumes (fmt : List UInt8) (s : Vsprintf) (fmt' : List UInt8) (s' : Vsprintf) : Prop where
  length : fmt'.length ≤ fmt.length
  args : s.args ≤ s'.args
  same : s' = { s with args := s'.args }

lemma Consumes.refl : Consumes fmt s fmt s := ⟨le_rfl, le_rfl, rfl⟩

lemma Consumes.trans {fmt'' : List UInt8} {s'' : Vsprintf} (h : Consumes fmt s fmt' s')
    (h' : Consumes fmt' s' fmt'' s'') : Consumes fmt s fmt'' s'' :=
  ⟨h'.length.trans h.length, h.args.trans h'.args, by rw [h'.same, h.same]⟩

variable (fmt s) in
lemma parseNumber_consumes : Consumes fmt s (parseNumber fmt s).2.1 (parseNumber fmt s).2.2 := by
  cases fmt with
  | nil => exact Consumes.refl
  | cons c rest =>
      simp only [parseNumber]
      split_ifs
      · exact ⟨skipAtoi_length, le_rfl, rfl⟩
      · exact ⟨Nat.le_succ _, Nat.le_add_right _ _, rfl⟩
      · exact Consumes.refl

variable (flags fmt s) in
lemma parseWidth_fmt : (parseWidth flags fmt s).2.2 = (parseNumber fmt s).2 := by
  simp only [parseWidth]
  split_ifs
  · rfl
  · rfl

variable (flags fmt s) in
lemma parseWidth_consumes :
    Consumes fmt s (parseWidth flags fmt s).2.2.1 (parseWidth flags fmt s).2.2.2 := by
  rw [parseWidth_fmt]
  exact parseNumber_consumes fmt s

variable (fmt s) in
lemma parsePrecision_consumes :
    Consumes fmt s (parsePrecision fmt s).2.1 (parsePrecision fmt s).2.2 := by
  rw [parsePrecision]
  by_cases hdot : fmt.head? = some 46
  · have h := parseNumber_consumes fmt.tail s
    rw [if_pos hdot]
    exact ⟨h.length.trans (by simp), h.args, h.same⟩
  · rw [if_neg hdot]
    exact Consumes.refl

lemma parseQualifier_length : (parseQualifier fmt).2.length ≤ fmt.length := by
  cases fmt with
  | nil => exact le_rfl
  | cons c rest =>
      simp only [parseQualifier]
      split_ifs
      · exact Nat.le_succ _
      · exact le_rfl

variable (fmt s) in
lemma parseDirective_consumes :
    Consumes fmt s (parseDirective fmt s).2.1 (parseDirective fmt s).2.2 := by
  have hflags : Consumes fmt s (parseFlags .none fmt).2 s := ⟨parseFlags_length, le_rfl, rfl⟩
  have hwidth := hflags.trans (parseWidth_consumes (parseFlags .none fmt).1 _ _)
  have hprecision := hwidth.trans (parsePrecision_consumes _ _)
  exact ⟨parseQualifier_length.trans hprecision.length, hprecision.args, hprecision.same⟩

/-- One turn of the loop at a `%`. -/
lemma vsprintfLoop_percent {n : ℕ} : vsprintfLoop (n + 1) (37 :: fmt) s =
    (convert (parseDirective fmt s).1 (parseDirective fmt s).2.1 (parseDirective fmt s).2.2).bind
      fun r => vsprintfLoop n r.1 r.2 := rfl

/-- One turn of the loop at another byte. -/
lemma vsprintfLoop_other {n : ℕ} (hc : c ≠ 37) :
    vsprintfLoop (n + 1) (c :: fmt) s = vsprintfLoop n fmt (put [c] s) := if_pos hc

end Printf

end Matanos
