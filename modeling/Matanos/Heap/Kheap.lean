import Matanos.Heap.Index
import Matanos.Paging.Boot

/-!
The heap of `cpu/kheap.c`: `create_heap`, `alloc` and `free`.

A block or hole starts with a header of 12 bytes (`magic`, `is_hole`, `size`) and ends with a
footer of 8 (`magic`, `header`). Memory is by bytes, since a request of odd size leaves the next
header unaligned. A page that is not mapped faults; the model lets such an access go through, so
it has every run that the kernel has.

* `Kheap`: memory, `heap_t` and what the pager keeps;
* `createHeap`, `findSmallestHole`, `grow`, `place`, `alloc`: with `alloc` calling itself once the
  heap has grown;
* `unifyLeft`, `unifyRight`, `shrink`, `free`: the parts of `free` in their order.
-/

namespace Matanos

open Lib

/-- Memory, the heap's descriptor and its pages. -/
structure Kheap (π : Type*) where
  mem : Bytes
  heap : Heap
  pages : π

/-- A header with its three fields. -/
def writeHeader (m : Bytes) (header : ℕ) (isHole : UInt8) (size : ℕ) : Bytes :=
  write32 (write8 (write32 m header heapMagic) (header + 4) isHole) (header + 8) size

/-- A footer with its two fields. -/
def writeFooter (m : Bytes) (footer header : ℕ) : Bytes :=
  write32 (write32 m footer heapMagic) (footer + 4) header

/-- A word as `int32_t`. -/
def toInt32 (n : ℕ) : ℤ := if n < 2 ^ 31 then n else (n : ℤ) - 2 ^ 32

/-- The test that ends the loop of `find_smallest_hole`. That for alignment is
`(location + 12) & (0xFFFFF000 != 0)`, by the precedence of the operators. -/
def fitsHole (m : Bytes) (size : ℕ) (pageAlign : Bool) (header : ℕ) : Bool :=
  if pageAlign then
    let location := add32 header 12
    let offset : ℕ := if location &&& 1 ≠ 0 then 0x1000 - location % 0x1000 else 0
    toInt32 size ≤ toInt32 (read32 m (header + 8)) - offset
  else size ≤ read32 m (header + 8)

/-- The loop of `alloc` for the endmost entry of the index, from the entry `iterator`. -/
def endmost : List ℕ → ℕ → Option ℕ → ℕ → Option ℕ
  | [], _, idx, _ => idx
  | tmp :: l, iterator, idx, value =>
      if tmp > value then endmost l (iterator + 1) (some iterator) tmp
      else endmost l (iterator + 1) idx value

namespace Kheap

variable {π : Type*} (P : Pager π)

/-- The entries of the index. -/
def slots (s : Kheap π) : List ℕ := s.heap.slots s.mem

/-- `header->size`. -/
def sizeAt (s : Kheap π) (header : ℕ) : ℕ := read32 s.mem (header + 8)

/-- `insert_ordered_array` on the index. -/
def insert (s : Kheap π) (item : ℕ) : Kheap π :=
  let (heap, mem) := s.heap.insertOrderedArray s.mem item
  { s with heap := heap, mem := mem }

/-- `remove_ordered_array` on the index. -/
def remove (s : Kheap π) (i : ℕ) : Kheap π :=
  let (heap, mem) := s.heap.removeOrderedArray s.mem i
  { s with heap := heap, mem := mem }

/-- `create_heap`, apart from the memory of the `heap_t` itself. -/
def createHeap (start endAddr max : ℕ) (supervisor readonly : Bool) (mem : Bytes) (pages : π) :
    Except Halt (Kheap π) :=
  if start % 0x1000 = 0 ∧ endAddr % 0x1000 = 0 then
    let index := start
    let mem : Bytes := fun x => if index ≤ x ∧ x < index + 4 * heapIndexSize then 0 else mem x
    let start := Paging.heapStartAddress start
    let heap : Heap :=
      { array := index, size := 0, maxSize := heapIndexSize, startAddress := start,
        endAddress := endAddr, maxAddress := max, supervisor := supervisor, readonly := readonly }
    let mem := writeHeader mem start 1 (sub32 endAddr start)
    .ok (Kheap.insert ⟨mem, heap, pages⟩ start)
  else .error .assert

/-- `find_smallest_hole`. -/
def findSmallestHole (size : ℕ) (pageAlign : Bool) (s : Kheap π) : Option ℕ :=
  s.slots.findIdx? (fitsHole s.mem size pageAlign)

/-- A new hole from the old end of the heap on, when the index is empty. -/
def appendHole (oldEnd size : ℕ) (s : Kheap π) : Kheap π :=
  let mem := writeHeader s.mem oldEnd 1 size
  let mem := writeFooter mem (sub32 (add32 oldEnd (read32 mem (oldEnd + 8))) 8) oldEnd
  Kheap.insert { s with mem := mem } oldEnd

/-- The hole `idx` of the index gets `more` bytes. -/
def extendHole (idx more : ℕ) (s : Kheap π) : Kheap π :=
  let header := s.heap.word s.mem idx
  let mem := write32 s.mem (header + 8) (add32 (read32 s.mem (header + 8)) more)
  let footer := sub32 (add32 header (read32 mem (header + 8))) 8
  { s with mem := writeFooter mem footer header }

/-- The branch of `alloc` that gets more space, up to the recursive call. -/
def grow (newSize : ℕ) (s : Kheap π) : Except Halt (Kheap π) :=
  let oldLength := s.heap.length
  let oldEnd := s.heap.endAddress
  (s.heap.expand P (add32 oldLength newSize) s.pages).map fun (heap, pages) =>
    let s : Kheap π := { s with heap := heap, pages := pages }
    let more := sub32 heap.length oldLength
    match endmost s.slots 0 none 0 with
    | none => s.appendHole oldEnd more
    | some idx => s.extendHole idx more

/-- The hole in front of an aligned block, with the place and the size that are left. -/
def alignHole (pos holeSize : ℕ) (s : Kheap π) : ℕ × ℕ × Kheap π :=
  let location := sub32 (sub32 (add32 pos 0x1000) (pos &&& 0xFFF)) 12
  let mem := writeHeader s.mem pos 1 (sub32 (sub32 0x1000 (pos &&& 0xFFF)) 12)
  let mem := writeFooter mem (sub32 location 8) pos
  (location, sub32 holeSize (read32 mem (pos + 8)), { s with mem := mem })

/-- The block itself. -/
def writeBlock (pos size newSize : ℕ) (s : Kheap π) : Kheap π :=
  let mem := writeHeader s.mem pos 0 newSize
  { s with mem := writeFooter mem (add32 (add32 pos 12) size) pos }

/-- The hole behind the block. -/
def writeRear (pos size holeSize newSize : ℕ) (s : Kheap π) : Kheap π :=
  if sub32 holeSize newSize > 0 then
    let header := add32 (add32 (add32 pos 12) size) 8
    let mem := writeHeader s.mem header 1 (sub32 holeSize newSize)
    let footer := sub32 (sub32 (add32 header holeSize) newSize) 8
    let mem := if footer < s.heap.endAddress then writeFooter mem footer header else mem
    Kheap.insert { s with mem := mem } header
  else s

/-- The rest of `alloc`, once a hole is found: the payload and the heap. -/
def place (size newSize : ℕ) (pageAlign : Bool) (iterator : ℕ) (s : Kheap π) : ℕ × Kheap π :=
  let pos := s.heap.word s.mem iterator
  let holeSize := s.sizeAt pos
  -- a remainder that is too small for a hole goes to the block
  let tight := sub32 holeSize newSize < 20
  let size := if tight then add32 size (sub32 holeSize newSize) else size
  let newSize := if tight then holeSize else newSize
  let (pos, holeSize, s) :=
    if pageAlign = true ∧ pos &&& 0xFFFFF000 ≠ 0 then s.alignHole pos holeSize
    else (pos, holeSize, s.remove iterator)
  (add32 pos 12, (s.writeBlock pos size newSize).writeRear pos size holeSize newSize)

/-- `alloc`, with at most `n` calls of itself. -/
def allocCalls (size : ℕ) (pageAlign : Bool) : ℕ → Kheap π → Except Halt (ℕ × Kheap π)
  | 0, _ => .error .diverges
  | n + 1, s =>
      let newSize := add32 size 20
      match s.findSmallestHole newSize pageAlign with
      | none => (s.grow P newSize).bind (allocCalls size pageAlign n)
      | some iterator => .ok (s.place size newSize pageAlign iterator)

/-- `alloc`, with the pointer it returns. -/
def alloc (size : ℕ) (pageAlign : Bool) (s : Kheap π) : Except Halt (ℕ × Kheap π) :=
  s.allocCalls P size pageAlign (2 ^ 32)

/-- What is to the left of `header` looks like the footer of a hole. -/
def leftHole (m : Bytes) (header : ℕ) : Option ℕ :=
  let testFooter := sub32 header 8
  if read32 m testFooter = heapMagic ∧ m (read32 m (testFooter + 4) + 4) = 1 then
    some (read32 m (testFooter + 4))
  else none

/-- The part "Unify left" of `free`: the header, and whether it has to be added to the index. -/
def unifyLeft (header footer : ℕ) (s : Kheap π) : ℕ × Bool × Kheap π :=
  match leftHole s.mem header with
  | some left =>
      let cacheSize := s.sizeAt header
      let mem := write32 s.mem (footer + 4) left
      (left, false,
        { s with mem := write32 mem (left + 8) (add32 (read32 mem (left + 8)) cacheSize) })
  | none => (header, true, s)

/-- What is behind `footer` looks like the header of a hole. -/
def rightHole (m : Bytes) (footer : ℕ) : Option ℕ :=
  let testHeader := add32 footer 8
  if read32 m testHeader = heapMagic ∧ m (testHeader + 4) ≠ 0 then some testHeader else none

/-- The part "Unify right" of `free`: the footer of what is now the hole. The footer keeps the
header it names. -/
def unifyRight (header footer : ℕ) (s : Kheap π) : Except Halt (ℕ × Kheap π) :=
  match rightHole s.mem footer with
  | some right =>
      let mem := write32 s.mem (header + 8) (add32 (s.sizeAt header) (s.sizeAt right))
      let footer := sub32 (add32 right (read32 mem (right + 8))) 8
      let s : Kheap π := { s with mem := mem }
      match s.slots.findIdx? (· == right) with
      | some iterator => .ok (footer, s.remove iterator)
      | none => .error .assert
  | none => .ok (footer, s)

/-- The part of `free` that contracts the heap. When nothing is left of the hole, the entry that
is looked for in the index is `test_header`. -/
def shrink (header footer testHeader : ℕ) (s : Kheap π) : Except Halt (Kheap π) :=
  if add32 footer 8 = s.heap.endAddress then
    let oldLength := s.heap.length
    (s.heap.contract P (sub32 header s.heap.startAddress) s.pages).map
      fun (newLength, heap, pages) =>
        let s : Kheap π := { s with heap := heap, pages := pages }
        let left := sub32 (s.sizeAt header) (sub32 oldLength newLength)
        if left > 0 then
          let mem := write32 s.mem (header + 8) left
          let footer := sub32 (add32 header (read32 mem (header + 8))) 8
          { s with mem := writeFooter mem footer header }
        else
          match s.slots.findIdx? (· == testHeader) with
          | some iterator => s.remove iterator
          | none => s
  else .ok s

/-- `free`. -/
def free (p : ℕ) (s : Kheap π) : Except Halt (Kheap π) :=
  if p = 0 then .ok s
  else
    let header := sub32 p 12
    let footer := sub32 (add32 header (s.sizeAt header)) 8
    if read32 s.mem header = heapMagic ∧ read32 s.mem footer = heapMagic then
      let s : Kheap π := { s with mem := write8 s.mem (header + 4) 1 }
      let (header, doAdd, s) := s.unifyLeft header footer
      let testHeader := add32 footer 8
      (s.unifyRight header footer).bind fun (footer, s) =>
        (s.shrink P header footer testHeader).map fun s =>
          if doAdd then s.insert header else s
    else .error .assert

end Kheap

end Matanos
