import Matanos.Heap.Bounds

/-!
An unaligned request that finds no hole: how often `alloc` grows the heap for it.

Nothing is asked of the blocks and holes but what the two searches read: the holes in the index have room
for their header and footer and lie above the entries of the index.

* `Heap.le_nextEnd`: the end is not below the start and moves by the request, if it does not wrap;
* `Retried.found`: after the growth the index has a hole that is large enough;
* `alloc_grows_once`: the call of `alloc` by itself finds a hole.
-/

namespace Matanos

open Lib

variable {π : Type*} {P : Pager π} {s t : Kheap π} {ns : ℕ}

/-- A heap that ends below its start would have wrapped. -/
lemma Heap.le_nextEnd {h : Heap} (htop : h.endAddress < 2 ^ 32) (hnext : h.nextEnd ns < 2 ^ 32) :
    h.startAddress ≤ h.endAddress ∧ h.endAddress + ns ≤ h.nextEnd ns := by
  obtain ⟨y, hy⟩ : ∃ y, h.length + ns = y := ⟨_, rfl⟩
  have hlt : y < nextPage y := by
    rw [nextPage, Nat.succ_mul]
    exact Nat.lt_div_mul_add (by decide)
  have hsum : h.startAddress + y ≤ h.nextEnd ns := by
    rw [Heap.nextEnd, hy]
    split_ifs <;> omega
  rw [Heap.length, sub32] at hy
  omega

/-- `create_heap` puts the index in front of the heap, where it stays. -/
lemma Laid.array_le_endAddress {cs : List Chunk} (h : Laid s cs) :
    s.heap.array ≤ s.heap.endAddress := by
  have hindex := h.placed.index
  have hends := h.tiled.le
  omega

/-- **The hole that the growth leaves.** -/
lemma Retried.found (hr : Retried P ns false s t) (htop : s.heap.endAddress < 2 ^ 32)
    (hempty : s.heap.size = 0 → s.heap.array ≤ s.heap.endAddress)
    (hholes : ∀ a ∈ s.slots, 20 ≤ s.sizeAt a ∧ s.heap.array + 4 * s.heap.size ≤ a)
    (hns20 : 20 ≤ ns) (hns : ns < 2 ^ 32) (hnext : s.heap.nextEnd ns < 2 ^ 32)
    (hroom : ∀ a ∈ s.slots, a + s.sizeAt a + (s.heap.nextEnd ns - s.heap.endAddress) < 2 ^ 32) :
    ∃ a ∈ t.slots, ns ≤ t.sizeAt a := by
  have hlength : s.slots.length = s.heap.size := Heap.length_slots
  obtain ⟨s₁, more, hmem, hheap, hmore, hnew, -, rfl⟩ :=
    hr.grown htop (s.heap.le_nextEnd htop hnext).1 hns hnext
  have harray₁ : s₁.heap.array = s.heap.array := by rw [hheap]
  have hsize₁ : s₁.heap.size = s.heap.size := by rw [hheap]
  have hslots₁ : s₁.slots = s.slots := by
    rw [Kheap.slots, hheap, hmem]
    rfl
  have hsame : ∀ a, s₁.sizeAt a = s.sizeAt a := fun a => by rw [Kheap.sizeAt, hmem, Kheap.sizeAt]
  rcases endmost_eq s.slots 0 none 0 with ⟨hzero, hnone⟩ | ⟨j, a, hj, -, -, hsome⟩
  · -- an entry would be 0, and lie above itself
    have hnil : s.heap.size = 0 := by
      by_contra hpos
      have hmem₀ : s.heap.word s.mem 0 ∈ s.slots := Heap.word_mem_slots (by omega)
      have hle := hzero _ hmem₀
      have hlo := (hholes _ hmem₀).2
      omega
    have harray : s₁.heap.array ≤ s.heap.endAddress := harray₁.trans_le (hempty hnil)
    have hmore20 : 20 ≤ more := hns20.trans hmore
    have hsum : s.heap.endAddress + more < 2 ^ 32 := hnew ▸ hnext
    obtain ⟨-, hslots, hsize⟩ := appendHole_hole (hsize₁.trans hnil) harray hmore20 hsum
    rw [hnone]
    refine ⟨s.heap.endAddress, ?_, hsize.symm ▸ hmore⟩
    rw [hslots]
    exact List.mem_singleton_self _
  · have hidx : j < s.heap.size := hlength ▸ (List.getElem?_eq_some_iff.mp hj).1
    have hget : s.slots[j]? = some (s.heap.word s.mem j) := Heap.getElem?_slots hidx
    have hword : s.heap.word s.mem j = a := Option.some.inj (hget.symm.trans hj)
    have hslot : a ∈ s.slots := hword ▸ Heap.word_mem_slots hidx
    obtain ⟨hn, hlo⟩ := hholes a hslot
    have hsum := hroom a hslot
    have hword₁ : s₁.heap.word s₁.mem j = a := by
      rw [hheap, hmem]
      exact hword
    have hmore₁ : 20 ≤ s₁.sizeAt a + more := by
      rw [hsame]
      omega
    have htop₁ : a + (s₁.sizeAt a + more) < 2 ^ 32 := by
      rw [hsame]
      omega
    obtain ⟨-, hslots, hsize, -⟩ :=
      extendHole_hole hword₁ (by rw [harray₁, hsize₁]; exact hlo) hmore₁ htop₁
    rw [hsome, Nat.zero_add]
    refine ⟨a, by rwa [hslots, hslots₁], ?_⟩
    rw [hsize, hsame]
    omega

/-- An unaligned request that finds no hole grows the heap once: if the holes have room for header and
footer and lie above the index (without a hole, the end of the heap does), and neither the new end nor
that of a hole with the new bytes reaches `2 ^ 32`, then the call of `alloc` by itself finds a hole. -/
theorem alloc_grows_once {π : Type*} {P : Pager π} {s t : Kheap π} {size : ℕ}
    (htop : s.heap.endAddress < 2 ^ 32)
    (hempty : s.heap.size = 0 → s.heap.array ≤ s.heap.endAddress)
    (hholes : ∀ a ∈ s.slots, 20 ≤ s.sizeAt a ∧ s.heap.array + 4 * s.heap.size ≤ a)
    (hnext : s.heap.nextEnd (size + 20) < 2 ^ 32)
    (hroom : ∀ a ∈ s.slots,
      a + s.sizeAt a + (s.heap.nextEnd (size + 20) - s.heap.endAddress) < 2 ^ 32)
    (hnone : s.findSmallestHole (add32 size 20) false = none)
    (hgrow : s.grow P (add32 size 20) = .ok t) :
    ∃ i, t.findSmallestHole (add32 size 20) false = some i ∧
      s.allocCalls P size false 2 = .ok (t.place size (add32 size 20) false i) ∧
      s.alloc P size false = .ok (t.place size (add32 size 20) false i) := by
  obtain ⟨-, hmoved⟩ := s.heap.le_nextEnd htop hnext
  have hsize : size + 20 < 2 ^ 32 := by omega
  have hns : add32 size 20 = size + 20 := add32_of_lt hsize
  have hr : Retried P (size + 20) false s t := by
    rw [← hns]
    exact ⟨hnone, hgrow⟩
  obtain ⟨a, ha, hfits⟩ := hr.found htop hempty hholes (by omega) hsize hnext hroom
  rw [← hns] at hfits
  obtain ⟨i, hfind⟩ := exists_findSmallestHole ha hfits
  refine ⟨i, hfind, allocCalls_grown hnone hgrow hfind 0, ?_⟩
  rw [Kheap.alloc, show 2 ^ 32 = 4294967294 + 2 from rfl]
  exact allocCalls_grown hnone hgrow hfind _

/-- The heap at the start, for a block that is larger than its hole. -/
theorem alloc_grows_once_first :
    ∃ s t : Kheap Unit,
      Kheap.createHeap 0xC0000000 0xC0100000 0xCFFFF000 false false (fun _ => 0) () = .ok s ∧
      s.findSmallestHole (add32 0x80000 20) false = none ∧
      s.grow .idle (add32 0x80000 20) = .ok t ∧
      ∃ i, t.findSmallestHole (add32 0x80000 20) false = some i ∧
        s.allocCalls .idle 0x80000 false 2 = .ok (t.place 0x80000 (add32 0x80000 20) false i) ∧
        s.alloc .idle 0x80000 false = .ok (t.place 0x80000 (add32 0x80000 20) false i) := by
  obtain ⟨s, hs, hlaid, hslots, hheap, hgrows⟩ := grows_start
  have hread : s.sizeAt 0xC0080000 = 0x80000 := (hlaid.valid _ (List.mem_singleton_self _)).size
  have hnext : s.heap.nextEnd (0x80000 + 20) = 0xC0180014 := by
    rw [hheap]
    decide
  have hstop : s.heap.endAddress = 0xC0100000 := by rw [hheap]
  obtain ⟨t, ht⟩ : ∃ t, s.grow .idle (add32 0x80000 20) = .ok t := ⟨_, hgrows.grow_eq hlaid⟩
  refine ⟨s, t, hs, hgrows.noHole, ht,
    alloc_grows_once ?_ ?_ ?_ ?_ ?_ hgrows.noHole ht⟩
  · rw [hstop]
    decide
  · exact fun _ => hlaid.array_le_endAddress
  · intro a ha
    rw [hslots, List.mem_singleton] at ha
    rw [ha, hread, hheap]
    decide
  · rw [hnext]
    decide
  · intro a ha
    rw [hslots, List.mem_singleton] at ha
    rw [ha, hread, hnext, hstop]
    decide

end Matanos
