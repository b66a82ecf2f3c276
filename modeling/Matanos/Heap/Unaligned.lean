import Matanos.Heap.Order

/-!
Allocation without alignment, from a hole that is large enough.

* `fit`: the bytes that a block takes from a hole;
* `place_unaligned`: the block is carved from the front of the hole;
* `alloc_unaligned_keeps_layout`: the heap that `alloc` leaves.
-/

namespace Matanos

open Lib

variable {π : Type*} {s s' : Kheap π}

/-! ### The block -/

/-- The bytes that a block of `ns` bytes takes from a hole of `n`: all of them, when what is left
is too small for a hole. -/
def fit (ns n : ℕ) : ℕ := if n - ns < 20 then n else ns

lemma fit_cases {ns n : ℕ} (hle : ns ≤ n) :
    ns ≤ fit ns n ∧ (fit ns n = n ∨ fit ns n + 20 ≤ n) := by
  rw [fit]
  split_ifs <;> omega

lemma fit_size {size n : ℕ} (hsize : size + 20 ≤ n) (htop : n < 2 ^ 32) :
    (if n - (size + 20) < 20 then add32 size (n - (size + 20)) else size)
      = fit (size + 20) n - 20 := by
  rw [fit]
  split_ifs
  · rw [add32_of_lt (by omega)]
    omega
  · exact (Nat.add_sub_cancel ..).symm

section Unaligned

variable {l r : List Chunk} {pos n i size p : ℕ}

/-- `place` without alignment, as the removal of the hole and the two writes. -/
lemma place_unaligned_eq (hpos : s.heap.word s.mem i = pos) (hread : s.sizeAt pos = n)
    (hsize : size + 20 ≤ n) (htop : pos + n < 2 ^ 32) :
    s.place size (size + 20) false i = (pos + 12,
      ((s.remove i).writeBlock pos (fit (size + 20) n - 20) (fit (size + 20) n)).writeRear pos
        (fit (size + 20) n - 20) n (fit (size + 20) n)) := by
  have hrest : sub32 n (size + 20) = n - (size + 20) := sub32_of_le hsize (by omega)
  have hpayload : add32 pos 12 = pos + 12 := add32_of_lt (by omega)
  have hnewSize : (if n - (size + 20) < 20 then n else size + 20) = fit (size + 20) n := rfl
  have hnewSize' := fit_size hsize (by omega)
  simp only [Kheap.place, hpos, hread, hrest, hnewSize, hnewSize', Bool.false_eq_true, false_and,
    if_false, hpayload]

/-- The index without a hole. -/
lemma Laid.removed (h : Laid s (l ++ ⟨pos, n, true⟩ :: r)) (hi : i < s.heap.size)
    (hpos : s.heap.word s.mem i = pos) :
    Indexed (s.remove i).heap (s.remove i).mem (holes l ++ holes r) := by
  refine h.index.remove hi ?_
  rw [hpos, holes_append, holes_cons_hole]
  exact List.perm_middle

/-- **`place` without alignment.** -/
lemma place_unaligned (h : Laid s (l ++ ⟨pos, n, true⟩ :: r)) (hi : i < s.heap.size)
    (hpos : s.heap.word s.mem i = pos) (hsize : size + 20 ≤ n)
    (hs' : s.place size (size + 20) false i = (p, s')) :
    p = pos + 12 ∧ Within s s' pos (pos + n) ∧
      Laid s' (l ++ (cut pos (fit (size + 20) n) n ++ r)) := by
  obtain ⟨-, hn, -, hlo, hhi, hv⟩ := h.around
  simp only at hn hlo hhi
  have htop := h.placed.top
  have hread : s.sizeAt pos = n := hv.size
  obtain ⟨hle, hk⟩ := fit_cases hsize
  rw [place_unaligned_eq hpos hread hsize (by omega)] at hs'
  obtain ⟨hp, hs'⟩ := Prod.mk.inj hs'
  have hw : Within s (s.remove i) pos pos := within_remove h.index.fits hi
  have hx := h.removed hi hpos
  have hroom : (s.remove i).heap.size < (s.remove i).heap.maxSize := by
    have hfits := h.index.fits
    change s.heap.size - 1 < s.heap.maxSize
    omega
  have hperm : (holes (cut pos (fit (size + 20) n) n) ++ (holes l ++ holes r)).Perm
      (holes (l ++ (([] ++ cut pos (fit (size + 20) n) n) ++ r))) := by
    rw [List.nil_append, holes_append, holes_append]
    exact List.perm_append_comm_assoc _ _ _
  have hfront : Tiled pos [] pos := rfl
  exact ⟨hp.symm, h.carve hw hx hfront (by omega) hk rfl (fun _ => hroom) hperm hs'.symm⟩

/-- The index stays sorted when the hole behind a block is put in it. -/
lemma SortedIndex.cut {q ns k : ℕ}
    (h : SortedIndex { s with mem := Matanos.writeChunks s.mem (cut q ns k) })
    (hp : s.heap.Placed) (hns : size + 20 = ns) (hk : ns = k ∨ ns + 20 ≤ k)
    (hq : s.heap.startAddress ≤ q) (hend : q + k ≤ s.heap.endAddress)
    (hroom : ns ≠ k → s.heap.size < s.heap.maxSize)
    (hin : ∀ a ∈ s.slots, s.heap.startAddress ≤ a) :
    SortedIndex ((s.writeBlock q size ns).writeRear q size k ns) := by
  have htop := hp.top
  rw [cut_eq hns hk (by omega) hend]
  split_ifs with hall
  · exact h
  · have hlt := hroom hall
    have hslots := slots_writeChunks hp hlt.le (cut_tiled (by omega) hk) hq
    refine h.insert hp hlt (by omega) fun a ha => ?_
    rw [hslots] at ha
    rcases List.mem_cons.mp ha with rfl | ha
    · change s.heap.startAddress ≤ q + ns
      omega
    · exact hin a ha

/-- Another hole is outside a hole. -/
lemma Laid.hole_apart (h : Laid s (l ++ ⟨pos, n, true⟩ :: r)) {a : ℕ}
    (ha : a ∈ holes l ++ holes r) : s.heap.startAddress ≤ a ∧ (a + 20 ≤ pos ∨ pos + n ≤ a) := by
  obtain ⟨hl, -, hr, hlo, -, -⟩ := h.around
  simp only at hl hr hlo
  rcases List.mem_append.mp ha with ha | ha
  · obtain ⟨c, hc, -, rfl⟩ := mem_holes.mp ha
    obtain ⟨h1, h2, h3⟩ := hl.bounds hc
    omega
  · obtain ⟨c, hc, -, rfl⟩ := mem_holes.mp ha
    obtain ⟨h1, h2, h3⟩ := hr.bounds hc
    omega

/-- `place` without alignment keeps the index sorted. -/
lemma place_unaligned_sorted (h : Laid s (l ++ ⟨pos, n, true⟩ :: r)) (hsorted : SortedIndex s)
    (hi : i < s.heap.size) (hpos : s.heap.word s.mem i = pos) (hsize : size + 20 ≤ n) :
    SortedIndex (s.place size (size + 20) false i).2 := by
  obtain ⟨-, hn, -, hlo, hhi, hv⟩ := h.around
  simp only at hn hlo hhi
  have htop := h.placed.top
  have hfits := h.index.fits
  have hread : s.sizeAt pos = n := hv.size
  obtain ⟨hle, hk⟩ := fit_cases hsize
  rw [place_unaligned_eq hpos hread hsize (by omega)]
  have hw : Within s (s.remove i) pos pos := within_remove hfits hi
  have hx := h.removed hi hpos
  have hp := hw.placed h.placed
  have hout : ∀ a ∈ (s.remove i).slots,
      s.heap.startAddress ≤ a ∧ (a + 20 ≤ pos ∨ pos + n ≤ a) := fun a ha =>
    h.hole_apart (hx.perm.mem_iff.mp ha)
  have hremoved : SortedIndex (s.remove i) :=
    hsorted.remove h.placed hfits hi fun a ha => (h.slot_bounds ha).1
  have hstart := hw.start
  have hstop := hw.stop
  refine (hremoved.writeChunks hp hx.fits (cut_tiled (by omega) hk) (by omega) ?_).cut hp (by omega)
    hk (by omega) (by omega) ?_ ?_
  · intro a ha
    have := hout a ha
    omega
  · intro _
    change s.heap.size - 1 < s.heap.maxSize
    omega
  · intro a ha
    rw [hstart]
    exact (hout a ha).1

end Unaligned

/-! ### The call -/

section Call

variable (P : Pager π) {cs l r : List Chunk} {size i : ℕ}

/-- `alloc` when a hole is found. -/
lemma alloc_found {pageAlign : Bool}
    (h : s.findSmallestHole (add32 size 20) pageAlign = some i) :
    s.alloc P size pageAlign = .ok (s.place size (add32 size 20) pageAlign i) := by
  rw [Kheap.alloc, show 2 ^ 32 = 4294967295 + 1 from rfl, Kheap.allocCalls]
  simp only [h]

/-- The entry that is found. -/
lemma findSmallestHole_some {pageAlign : Bool} {ns : ℕ}
    (h : s.findSmallestHole ns pageAlign = some i) :
    i < s.heap.size ∧ fitsHole s.mem ns pageAlign (s.heap.word s.mem i) = true := by
  obtain ⟨hi, hfit, -⟩ := List.findIdx?_eq_some_iff_getElem.mp h
  have hget : s.slots[i] = s.heap.word s.mem i := Heap.getElem_slots hi
  rw [hget] at hfit
  have hlength : s.slots.length = s.heap.size := Heap.length_slots
  exact ⟨hlength ▸ hi, hfit⟩

/-- A hole that is large enough is found. -/
lemma exists_findSmallestHole {n a : ℕ} (ha : a ∈ s.slots) (hle : n ≤ s.sizeAt a) :
    ∃ i, s.findSmallestHole n false = some i := by
  refine Option.isSome_iff_exists.mp ?_
  rw [Kheap.findSmallestHole, List.findIdx?_isSome, List.any_eq_true]
  exact ⟨a, ha, decide_eq_true hle⟩

/-- A block is cut from the only hole, which is at the end of the heap. -/
lemma alloc_last (size : ℕ) {a n : ℕ} (h : Laid s (l ++ [⟨a, n, true⟩])) (hslots : s.slots = [a])
    (hsize : size + 40 ≤ n) :
    ∃ s', s.alloc P size false = .ok (a + 12, s') ∧
      Laid s' (l ++ [⟨a, size + 20, false⟩, ⟨a + (size + 20), n - (size + 20), true⟩]) ∧
      s'.slots = [a + (size + 20)] ∧ s'.heap = s.heap := by
  obtain ⟨-, -, -, -, hhi, hv⟩ := h.around
  simp only at hhi
  have htop := h.placed.top
  have hread : s.sizeAt a = n := hv.size
  have hmem : a ∈ s.slots := by
    rw [hslots]
    exact List.mem_singleton_self _
  obtain ⟨i, hfind⟩ := exists_findSmallestHole (n := size + 20) hmem (by omega)
  obtain ⟨hi, -⟩ := findSmallestHole_some hfind
  have hword : s.heap.word s.mem i = a := by
    have hslot : s.heap.word s.mem i ∈ s.slots := Heap.word_mem_slots hi
    rw [hslots] at hslot
    exact List.mem_singleton.mp hslot
  obtain ⟨p, s', hplace⟩ : ∃ p s', s.place size (size + 20) false i = (p, s') := ⟨_, _, rfl⟩
  obtain ⟨rfl, hw, hlaid⟩ := place_unaligned h hi hword (by omega) hplace
  have hfit : fit (size + 20) n = size + 20 := by
    rw [fit, if_neg (by omega)]
  rw [hfit, cut, if_neg (by omega), List.append_nil] at hlaid
  have hnone : holes l = [] := by
    have hlength := h.index.perm.length_eq
    rw [show s.heap.slots s.mem = [a] from hslots, holes_append, List.length_append] at hlength
    exact List.length_eq_zero_iff.mp (by simpa using hlength)
  have hslots' : s'.slots = [a + (size + 20)] := by
    have hperm := hlaid.index.perm
    rw [holes_append, hnone] at hperm
    exact List.perm_singleton.mp hperm
  have hadd : add32 size 20 = size + 20 := add32_of_lt (by omega)
  refine ⟨s', by rw [alloc_found P (by rw [hadd]; exact hfind), hadd, hplace], hlaid, hslots', ?_⟩
  have hsize' : s'.slots.length = s'.heap.size := Heap.length_slots
  have hsize₀ : s.slots.length = s.heap.size := Heap.length_slots
  rw [hslots', List.length_singleton] at hsize'
  rw [hslots, List.length_singleton] at hsize₀
  rw [hw.heap, ← hsize', hsize₀]

/-- A block in place of a hole, with what is left of the hole behind it, separates as before. -/
lemma Separated.cut {pos n ns : ℕ} (h : Separated (l ++ ⟨pos, n, true⟩ :: r)) :
    Separated (l ++ (Matanos.cut pos ns n ++ r)) := by
  rw [Separated, List.isChain_append, List.isChain_cons] at h
  obtain ⟨hl, ⟨hhead, hr⟩, hlast⟩ := h
  rw [Separated, List.isChain_append]
  refine ⟨hl, ?_, ?_⟩
  · rw [Matanos.cut]
    split_ifs
    · exact List.isChain_cons.mpr ⟨fun d _ hfalse => absurd hfalse (by simp), hr⟩
    · refine List.isChain_cons.mpr ⟨fun d _ hfalse => absurd hfalse (by simp), ?_⟩
      exact List.isChain_cons.mpr ⟨fun d hd _ => hhead d hd rfl, hr⟩
  · intro c hc d hd hhole
    rw [Matanos.cut, List.cons_append, List.head?_cons, Option.mem_some_iff] at hd
    rw [← hd]

end Call

/-- The block at `p` is carved from the hole of `n` bytes at `a`, one of the chunks `cs`, which
leaves the chunks `cs'`, and everything outside that hole and the index is as before. -/
def CarvesBlock {π : Type*} (s : Kheap π) (cs : List Chunk) (a n size p : ℕ) (s' : Kheap π)
    (cs' : List Chunk) : Prop :=
  ∃ l mid r k, cs = l ++ ⟨a, n, true⟩ :: r ∧ cs' = l ++ (mid ++ r) ∧
    ⟨p - 12, k, false⟩ ∈ mid ∧ size + 20 ≤ k ∧ a ≤ p - 12 ∧ p - 12 + k ≤ a + n ∧
    s'.heap = { s.heap with size := s'.heap.size } ∧
    ∀ x, x < s.heap.array ∨ s.heap.array + 4 * s.heap.maxSize ≤ x → x < a ∨ a + n ≤ x →
      s'.mem x = s.mem x

/-- Allocation without alignment keeps the layout: the heap stays well formed and its index sorted,
and the block lies in what was one hole. -/
theorem alloc_unaligned_keeps_layout {π : Type*} (P : Pager π) {s : Kheap π} {cs : List Chunk}
    {size : ℕ} (h : Laid s cs) (hseparated : Separated cs) (hsorted : SortedIndex s)
    (hsize : size + 20 < 2 ^ 32) (hfit : ∃ a ∈ s.slots, size + 20 ≤ s.sizeAt a) :
    ∃ p s' cs', s.alloc P size false = .ok (p, s') ∧ Laid s' cs' ∧ Separated cs' ∧
      SortedIndex s' ∧ ∃ a n, CarvesBlock s cs a n size p s' cs' := by
  obtain ⟨b, hb, hle⟩ := hfit
  obtain ⟨i, hfind⟩ := exists_findSmallestHole hb hle
  obtain ⟨hi, hfits⟩ := findSmallestHole_some hfind
  obtain ⟨l, n, r, rfl⟩ := h.hole_of_slot hi
  obtain ⟨a, ha⟩ : ∃ a, s.heap.word s.mem i = a := ⟨_, rfl⟩
  rw [ha] at h hseparated hfits
  obtain ⟨-, -, -, -, -, hv⟩ := h.around
  have hn : size + 20 ≤ n := by
    have hread : read32 s.mem (a + 8) = n := hv.size
    simpa [fitsHole, hread] using hfits
  obtain ⟨p, s', hplace⟩ : ∃ p s', s.place size (size + 20) false i = (p, s') := ⟨_, _, rfl⟩
  obtain ⟨hp, hwithin, hlaid⟩ := place_unaligned h hi ha hn hplace
  have hsorted' := place_unaligned_sorted h hsorted hi ha hn
  rw [hplace] at hsorted'
  obtain ⟨hfitle, hfitcases⟩ := fit_cases hn
  have hadd : add32 size 20 = size + 20 := add32_of_lt hsize
  refine ⟨p, s', l ++ (cut a (fit (size + 20) n) n ++ r), ?_, hlaid, hseparated.cut, hsorted', a, n,
    l, cut a (fit (size + 20) n) n, r, fit (size + 20) n, by rw [ha], rfl, ?_, hfitle, by omega,
    by omega, hwithin.heap, hwithin.bytes⟩
  · rw [alloc_found P (by rw [hadd]; exact hfind), hadd, hplace]
  · rw [hp, Nat.add_sub_cancel, cut]
    exact List.mem_cons_self

/-- The first allocation. -/
theorem alloc_unaligned_keeps_layout_first :
    ∃ s : Kheap Unit,
      Kheap.createHeap 0xC0000000 0xC0100000 0xCFFFF000 false false (fun _ => 0) () = .ok s ∧
      ∃ p s' cs', s.alloc .idle 100 false = .ok (p, s') ∧
        Laid s' cs' ∧ Separated cs' ∧ SortedIndex s' ∧
        ∃ a n, CarvesBlock s [⟨0xC0080000, 0x80000, true⟩] a n 100 p s' cs' := by
  obtain ⟨s, hs, hlaid, hsorted, -, hslots⟩ := createHeap_laid 0xC0000000 0xC0100000 0xCFFFF000
    false false (fun _ => 0) () (by decide) (by decide) (by decide) (by decide)
  have hsize : s.sizeAt 0xC0080000 = 0x80000 := (hlaid.valid _ (List.mem_singleton_self _)).size
  refine ⟨s, hs, alloc_unaligned_keeps_layout _ hlaid (List.isChain_singleton _) hsorted
    (by decide) ⟨0xC0080000, ?_, ?_⟩⟩
  · rw [hslots]
    exact List.mem_singleton_self _
  · rw [hsize]
    decide

end Matanos
