import Matanos.Lib.Word

/-!
The descriptor `heap_t` of the kernel heap, and the functions `expand` and `contract` of
`cpu/kheap.c` that move its end.

The two map and unmap pages as they go. What they need of paging is a `Pager`, so that the heap
can be studied over any of them and the pages over the one of the kernel.

* `Halt`: the ways in which a call does not return;
* `roundExpand`, `roundContract`: the sizes the two functions compute, as they are written;
* `expand`, `contract`: the functions; `roundExpand_eq`, `roundContract_eq`: their sizes over the
  integers.
-/

namespace Matanos

open Lib

/-- How a call can fail to return: an `ASSERT` stops the kernel, a null page entry is used, no
frame is free, or a loop does not end. -/
inductive Halt where
  | assert
  | nullPage
  | noFrame
  | diverges
deriving DecidableEq

/-- The structure `heap_t`, with its index: where the array is, its size and capacity. -/
structure Heap where
  array : ℕ
  size : ℕ
  maxSize : ℕ
  startAddress : ℕ
  endAddress : ℕ
  maxAddress : ℕ
  supervisor : Bool
  readonly : Bool

/-- What `expand` and `contract` do to the page of an address. -/
structure Pager (π : Type*) where
  alloc : ℕ → Bool → Bool → π → Except Halt π
  free : ℕ → π → Except Halt π

/-- `HEAP_MIN_SIZE`. -/
def heapMinSize : ℕ := 0x70000

namespace Heap

variable {π : Type*} (P : Pager π)

/-- `end_address - start_address`. -/
def length (h : Heap) : ℕ := sub32 h.endAddress h.startAddress

/-- The rounding of `expand`. The test is `new_size & (0xFFFFF000 != 0)`, by the precedence of
the operators: only odd sizes are rounded. -/
def roundExpand (newSize : ℕ) : ℕ :=
  if newSize &&& 1 ≠ 0 then add32 (newSize &&& 0xFFFFF000) 0x1000 else newSize

/-- The rounding of `contract`, which masks with `0x1000`, and the least size. -/
def roundContract (newSize : ℕ) : ℕ :=
  let newSize :=
    if newSize &&& 0x1000 ≠ 0 then add32 (newSize &&& 0x1000) 0x1000 else newSize
  if newSize < heapMinSize then heapMinSize else newSize

/-- The loop of `expand` from `i`; a counter that has not stopped after `2 ^ 20` turns has
wrapped. -/
def expandLoop (h : Heap) (newSize : ℕ) : ℕ → ℕ → π → Except Halt π
  | 0, i, s => if i < newSize then .error .diverges else .ok s
  | n + 1, i, s =>
      if i < newSize then
        (P.alloc (add32 h.startAddress i) h.supervisor (!h.readonly) s).bind fun s =>
          expandLoop h newSize n (add32 i 0x1000) s
      else .ok s

/-- `expand`. -/
def expand (newSize : ℕ) (h : Heap) (s : π) : Except Halt (Heap × π) :=
  if newSize > h.length then
    let newSize := roundExpand newSize
    if add32 h.startAddress newSize ≤ h.maxAddress then
      (h.expandLoop P newSize (2 ^ 20) h.length s).map fun s =>
        ({ h with endAddress := add32 h.startAddress newSize }, s)
    else .error .assert
  else .error .assert

/-- The loop of `contract` from `i`. -/
def contractLoop (h : Heap) (newSize : ℕ) : ℕ → ℕ → π → Except Halt π
  | 0, i, s => if newSize < i then .error .diverges else .ok s
  | n + 1, i, s =>
      if newSize < i then
        (P.free (add32 h.startAddress i) s).bind fun s =>
          contractLoop h newSize n (sub32 i 0x1000) s
      else .ok s

/-- `contract`, with the size it returns. -/
def contract (newSize : ℕ) (h : Heap) (s : π) : Except Halt (ℕ × Heap × π) :=
  if newSize < h.length then
    let newSize := roundContract newSize
    (h.contractLoop P newSize (2 ^ 20) (sub32 h.length 0x1000) s).map fun s =>
      (newSize, { h with endAddress := add32 h.startAddress newSize }, s)
  else .error .assert

/-! ### The sizes -/

lemma roundExpand_eq {n : ℕ} (hn : n + 0x1000 < 2 ^ 32) :
    roundExpand n = if n % 2 = 1 then n / 0x1000 * 0x1000 + 0x1000 else n := by
  have hbit : n &&& 1 = n % 2 := Nat.and_one_is_mod n
  have hmask : n &&& 0xFFFFF000 = n / 0x1000 * 0x1000 :=
    and_highMask (n := n) (m := 20) (k := 12) (by omega)
  rw [roundExpand, hbit, hmask, add32_of_lt (by omega)]
  rcases Nat.mod_two_eq_zero_or_one n with h | h <;> simp [h]

/-- The new size of `expand` is at least the size asked for. -/
lemma le_roundExpand {n : ℕ} (hn : n + 0x1000 < 2 ^ 32) : n ≤ roundExpand n := by
  rw [roundExpand_eq hn]
  split <;> omega

lemma roundContract_eq {n : ℕ} :
    roundContract n = if n / 0x1000 % 2 = 1 ∨ n < heapMinSize then heapMinSize else n := by
  have hbit : n &&& 0x1000 = n / 0x1000 % 2 * 0x1000 := and_singleBit n 12
  simp only [roundContract, hbit]
  rcases Nat.mod_two_eq_zero_or_one (n / 0x1000) with h | h
  · simp [h]
  · have hsmall : add32 0x1000 0x1000 < heapMinSize := by decide
    simp [h, hsmall]

end Heap

end Matanos
