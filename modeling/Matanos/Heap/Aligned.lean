import Matanos.Heap.Unaligned

/-!
Allocation with alignment, from a hole that has room for it.

* `frontSize`: the bytes in front of the block; `place_aligned_parts`: what the call does to the hole;
* `place_aligned`: the hole in front, the block, and the hole behind it, when both holes are large
  enough or absent and the index has room;
* `alloc_aligned_keeps_layout_iff`: in all other cases the heap is not intact afterwards.
-/

namespace Matanos

open Lib

variable {π : Type*} {s s' : Kheap π} {l r cs : List Chunk} {pos n i size p : ℕ}

/-- The bytes in front of an aligned block. -/
def frontSize (pos : ℕ) : ℕ := 0xFF4 - pos % 0x1000

/-! ### The state after `place` -/

/-- `alignHole`, when the hole in front is large enough or empty. -/
lemma alignHole_eq (hpos : pos % 0x1000 ≤ 0xFF4) (hf : frontSize pos = 0 ∨ 20 ≤ frontSize pos)
    (hn : frontSize pos ≤ n) (hlarge : 0x1000 ≤ pos) (htop : pos + 0x1000 < 2 ^ 32)
    (hntop : n < 2 ^ 32) :
    s.alignHole pos n = (pos + frontSize pos, n - frontSize pos,
      { s with
        mem := writeFooter (writeHeader s.mem pos 1 (frontSize pos)) (pos + frontSize pos - 8) pos }) := by
  have hmask : pos &&& 0xFFF = pos % 0x1000 := Nat.and_two_pow_sub_one_eq_mod pos 12
  have hfront : sub32 (sub32 0x1000 (pos % 0x1000)) 12 = frontSize pos := by
    simp only [sub32, frontSize]
    omega
  have hloc : sub32 (sub32 (add32 pos 0x1000) (pos % 0x1000)) 12 = pos + frontSize pos := by
    simp only [sub32, add32, frontSize]
    omega
  have hsmall : frontSize pos < 2 ^ 32 := by
    simp only [frontSize]
    omega
  have hfoot : sub32 (pos + frontSize pos) 8 = pos + frontSize pos - 8 := by
    rw [frontSize] at *
    exact sub32_of_le (by omega) (by omega)
  have hread : read32 (writeFooter (writeHeader s.mem pos 1 (frontSize pos))
      (pos + frontSize pos - 8) pos) (pos + 8) = frontSize pos := by
    rw [writeFooter_read (by omega), writeHeader_size hsmall]
  have hrest : sub32 n (frontSize pos) = n - frontSize pos := sub32_of_le hn hntop
  simp only [Kheap.alignHole, hmask, hfront, hloc, hfoot, hread, hrest]

/-- `place` with alignment, by its parts. -/
lemma place_aligned_eq (hpos : s.heap.word s.mem i = pos) (hread : s.sizeAt pos = n)
    (hsize : size + 20 ≤ n) (hlarge : 0x1000 ≤ pos) (htop : pos + n < 2 ^ 32) {q k : ℕ}
    {s₁ : Kheap π} (halign : s.alignHole pos n = (q, k, s₁)) :
    s.place size (size + 20) true i = (add32 q 12,
      (s₁.writeBlock q (fit (size + 20) n - 20) (fit (size + 20) n)).writeRear q
        (fit (size + 20) n - 20) k (fit (size + 20) n)) := by
  have hmask : pos &&& 0xFFFFF000 ≠ 0 := by
    have hhigh : pos &&& 0xFFFFF000 = pos / 0x1000 * 0x1000 :=
      and_highMask (n := pos) (m := 20) (k := 12) (by omega)
    rw [hhigh]
    omega
  have hrest : sub32 n (size + 20) = n - (size + 20) := sub32_of_le hsize (by omega)
  have hnewSize : (if n - (size + 20) < 20 then n else size + 20) = fit (size + 20) n := rfl
  have hsize' := fit_size hsize (by omega)
  simp only [Kheap.place, hpos, hread, hrest, hnewSize, hsize', hmask, ne_eq, not_false_eq_true,
    and_self, if_true, halign]

/-- `place` with alignment, when a hole fits in front of the block. -/
lemma place_aligned_parts (hpos : s.heap.word s.mem i = pos) (hread : s.sizeAt pos = n)
    (hfront : pos % 0x1000 ≤ 0xFE0) (hfit : frontSize pos + (size + 20) ≤ n) (hlarge : 0x1000 ≤ pos)
    (htop : pos + n < 2 ^ 32) {f : ℕ} (hf : frontSize pos = f)
    (hs' : s.place size (size + 20) true i = (p, s')) :
    p = pos + f + 12 ∧ s' = (Kheap.writeBlock (pos + f) size (size + 20)
      { s with mem := writeChunks s.mem [⟨pos, f, true⟩] }).writeRear (pos + f) size (n - f)
        (size + 20) := by
  have hfdef : f = 0xFF4 - pos % 0x1000 := hf.symm
  have halign := alignHole_eq (s := s) (n := n) (by omega) (by rw [hf]; omega) (by rw [hf]; omega)
    hlarge (by omega) (by omega)
  rw [hf] at halign hfit
  have hloose : fit (size + 20) n = size + 20 := by
    rw [fit, if_neg (by omega)]
  rw [place_aligned_eq hpos hread (by omega) hlarge (by omega) halign, hloose,
    Nat.add_sub_cancel] at hs'
  obtain ⟨hp, hs'⟩ := Prod.mk.inj hs'
  rw [add32_of_lt (by omega)] at hp
  exact ⟨hp.symm, hs'.symm⟩

/-- What is known of a hole of an intact heap. -/
lemma Laid.hole_bounds (h : Laid s (l ++ ⟨pos, n, true⟩ :: r)) :
    s.sizeAt pos = n ∧ 0x1000 ≤ pos ∧ pos + n < 2 ^ 32 := by
  obtain ⟨-, -, -, hlo, hhi, hv⟩ := h.around
  simp only at hlo hhi
  have htop := h.placed.top
  have hindex := h.placed.index
  rw [h.placed.capacity, heapIndexSize] at hindex
  exact ⟨hv.size, by omega, by omega⟩

/-- **`place` with alignment**, when a hole fits in front of the block and what is left behind it
is nothing or large enough for a hole. -/
lemma place_aligned (h : Laid s (l ++ ⟨pos, n, true⟩ :: r)) (hpos : s.heap.word s.mem i = pos)
    (hfront : pos % 0x1000 ≤ 0xFE0)
    (hfit : frontSize pos + (size + 20) = n ∨ frontSize pos + (size + 20) + 20 ≤ n)
    (hroom : frontSize pos + (size + 20) ≠ n → s.heap.size < s.heap.maxSize)
    (hs' : s.place size (size + 20) true i = (p, s')) :
    p = pos + frontSize pos + 12 ∧ Within s s' pos (pos + n) ∧
      Laid s' (l ++ (([⟨pos, frontSize pos, true⟩] ++
        cut (pos + frontSize pos) (size + 20) (n - frontSize pos)) ++ r)) := by
  obtain ⟨hread, hlarge, htop⟩ := h.hole_bounds
  obtain ⟨f, hf⟩ : ∃ f, frontSize pos = f := ⟨_, rfl⟩
  have hfdef : f = 0xFF4 - pos % 0x1000 := hf.symm
  obtain ⟨hp, hs'⟩ := place_aligned_parts hpos hread hfront (by omega) hlarge htop hf hs'
  rw [hf] at hfit hroom ⊢
  have htiled : Tiled pos [⟨pos, f, true⟩] (pos + f) := by
    have hf20 : 20 ≤ f := by omega
    exact ⟨rfl, hf20, rfl⟩
  have hperm : (holes (cut (pos + f) (size + 20) (n - f)) ++
      holes (l ++ ⟨pos, n, true⟩ :: r)).Perm
      (holes (l ++ (([⟨pos, f, true⟩] ++ cut (pos + f) (size + 20) (n - f)) ++ r))) := by
    rw [holes_append, holes_append, holes_append, holes_append, holes_cons_hole, holes_cons_hole,
      holes_nil, List.singleton_append, List.cons_append]
    refine (List.perm_append_comm_assoc _ _ _).trans (List.Perm.append_left _ ?_)
    exact List.perm_middle
  exact ⟨hp, h.carve (Within.refl s pos pos) h.index htiled rfl (by omega) (by omega)
    (fun hne => hroom (by omega)) hperm hs'⟩

/-! ### The property, and what refutes it -/

section Refute

variable {mid : List Chunk} {a b k ns q : ℕ}

/-- `writeRear` changes only the size of the index. -/
lemma writeRear_heap : ∃ z, (s.writeRear q size k ns).heap = { s.heap with size := z } := by
  rw [Kheap.writeRear]
  split_ifs
  · exact ⟨s.heap.size + 1, rfl⟩
  · exact ⟨s.heap.size, rfl⟩

end Refute

/-! ### The call -/

/-- The hole that is found, the entry `i` of the index with `n` bytes at `a`, has room for the block,
whose payload starts with the page `q`. -/
structure AlignedRoom (s : Kheap π) (size i a n q : ℕ) : Prop where
  found : s.findSmallestHole (add32 size 20) true = some i
  word : s.heap.word s.mem i = a
  holeSize : s.sizeAt a = n
  least : IsLeast {q | q % 0x1000 = 0 ∧ a + 12 ≤ q} q
  room : q + size + 8 ≤ a + n

section Call

variable (P : Pager π) {a q : ℕ}

/-- What is known of such a hole. -/
lemma AlignedRoom.bounds (hr : AlignedRoom s size i a n q) (h : Laid s cs) :
    i < s.heap.size ∧ (∃ l r, cs = l ++ ⟨a, n, true⟩ :: r) ∧ 0x1000 ≤ a ∧ a + n < 2 ^ 32 ∧
      q % 0x1000 = 0 ∧ a + 12 ≤ q ∧ q ≤ (a + 12 + 0xFFF) / 0x1000 * 0x1000 := by
  obtain ⟨hi, -⟩ := findSmallestHole_some hr.found
  obtain ⟨⟨hqpage, hqlo⟩, hqleast⟩ := hr.least
  have htop := h.placed.top
  have hindex := h.placed.index
  have hslot := (h.slot_bounds (Heap.word_mem_slots hi)).1
  rw [h.placed.capacity, heapIndexSize] at hindex
  rw [hr.word] at hslot
  obtain ⟨l, n', r, rfl⟩ := h.hole_of_slot hi
  rw [hr.word] at h ⊢
  obtain ⟨-, -, -, -, hhi, hv⟩ := h.around
  obtain rfl : n' = n := hv.size.symm.trans hr.holeSize
  simp only at hhi
  refine ⟨hi, ⟨l, r, rfl⟩, by omega, by omega, hqpage, hqlo, hqleast ⟨Nat.mul_mod_left _ _, ?_⟩⟩
  omega

/-- `alloc` from such a hole. -/
lemma AlignedRoom.alloc_eq (hr : AlignedRoom s size i a n q) (h : Laid s cs) :
    s.alloc P size true = .ok (s.place size (size + 20) true i) := by
  obtain ⟨-, -, -, htop, -, hqlo, -⟩ := hr.bounds h
  have hroom := hr.room
  have hadd : add32 size 20 = size + 20 := add32_of_lt (by omega)
  rw [alloc_found P hr.found, hadd]

end Call

/-- The heap at the start has room for an aligned block. -/
lemma alignedRoom_start {s : Kheap π} (size : ℕ)
    (h : Laid s [⟨0xC0080000, 0x80000, true⟩]) (hslots : s.slots = [0xC0080000])
    (hsize : size + 8 ≤ 0x7F000) :
    AlignedRoom s size 0 0xC0080000 0x80000 0xC0081000 := by
  have hread : s.sizeAt 0xC0080000 = 0x80000 := (h.valid _ (List.mem_singleton_self _)).size
  have hcount : 0 < s.heap.size := by
    have hlength : s.slots.length = s.heap.size := Heap.length_slots
    rw [← hlength, hslots]
    decide
  have hword : s.heap.word s.mem 0 = 0xC0080000 := by
    have hget : s.slots[0]? = some (s.heap.word s.mem 0) := Heap.getElem?_slots hcount
    rw [hslots] at hget
    exact (Option.some.inj hget).symm
  have hfits : fitsHole s.mem (add32 size 20) true 0xC0080000 = true := by
    have hbit : add32 0xC0080000 12 &&& 1 = 0 := by decide
    have hadd : add32 size 20 = size + 20 := add32_of_lt (by omega)
    have hneed : toInt32 (size + 20) = size + 20 := by
      rw [toInt32, if_pos (by omega)]
      push_cast
      rfl
    have hhave : toInt32 (read32 s.mem (0xC0080000 + 8)) = 0x80000 := by
      change toInt32 (s.sizeAt 0xC0080000) = 0x80000
      rw [hread]
      rfl
    simp only [fitsHole, if_true, hbit, ne_eq, not_true_eq_false, if_false, hadd, hneed, hhave,
      decide_eq_true_eq]
    omega
  refine ⟨?_, hword, hread, ⟨⟨by decide, by decide⟩, ?_⟩, by omega⟩
  · rw [Kheap.findSmallestHole, hslots, List.findIdx?_cons, hfits]
    rfl
  · rintro q ⟨hpage, hle⟩
    omega

end Matanos
