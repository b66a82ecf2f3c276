import Matanos.Heap.Interior

/-!
`free` right after `alloc`: the hole that was taken comes back.

* `placed_neighbours`: the block and what is left of the hole behind it;
* `free_undoes_alloc`: the index has the same holes with the same sizes afterwards, in order, and the
  bytes outside the hole and the index are what they were;
* `below_kept`: what is in front of the heap does not become the magic number by the call.
-/

namespace Matanos

open Lib

variable {π : Type*} {s s' : Kheap π} {l r cs : List Chunk} {a n N i size : ℕ}

/-- A cut hole is a block and the hole behind it. -/
lemma cut_eq_holeAt {q ns k : ℕ} (h : ns ≤ k) :
    cut q ns k = ⟨q, ns, false⟩ :: holeAt (q + ns) (k - ns) := by
  rw [cut, holeAt]
  by_cases hall : ns = k
  · rw [if_pos hall, if_pos (by omega)]
  · rw [if_neg hall, if_neg (by omega)]

/-- The block that is cut from a hole between blocks, with what is left of the hole. -/
lemma placed_neighbours (h : Laid s' (l ++ (cut a n N ++ r))) (hle : n ≤ N)
    (hl : ∀ c ∈ l.getLast?, c.hole = false) (hr : ∀ c ∈ r.head?, c.hole = false) :
    Neighbours s' l r a 0 n (N - n) := by
  refine ⟨?_, hl, hr⟩
  rw [cut_eq_holeAt hle, List.cons_append] at h
  exact h

/-- Without the magic number in front of it the first block has no hole on its left. -/
lemma leftHole_of_magic (hlo : 8 ≤ a) (htop : a < 2 ^ 32) (hmagic : read32 s.mem (a - 8) ≠ heapMagic) :
    Kheap.leftHole (markedMem s a) a = none := by
  have hfooter : sub32 a 8 = a - 8 := sub32_of_le hlo htop
  have hread : read32 (markedMem s a) (a - 8) = read32 s.mem (a - 8) :=
    read32_write8_of_apart (by omega)
  rw [Kheap.leftHole, hfooter]
  exact if_neg fun hfound => hmagic (hread.symm.trans hfound.1)

/-- Freeing a block right after it was allocated, from a hole in the middle between blocks, brings the
index back with the same sizes, in order, and leaves everything outside that hole as it was. -/
theorem free_undoes_alloc {π : Type*} (P : Pager π) {s : Kheap π} {l r : List Chunk} {a N i size : ℕ}
    (h : Laid s (l ++ ⟨a, N, true⟩ :: r)) (hsorted : SortedIndex s) (hsize : size + 20 < 2 ^ 32)
    (hfind : s.findSmallestHole (add32 size 20) false = some i) (hword : s.heap.word s.mem i = a)
    (hinner : r ≠ []) (hl : ∀ c ∈ l.getLast?, c.hole = false) (hr : ∀ c ∈ r.head?, c.hole = false)
    (hbelow : l = [] → ∀ p s₁, s.alloc P size false = .ok (p, s₁) →
      read32 s₁.mem (a - 8) ≠ heapMagic) :
    ∃ p s₁ s₂, s.alloc P size false = .ok (p, s₁) ∧ s₁.free P p = .ok s₂ ∧ s₂.heap = s.heap ∧
      s₂.slots.Perm s.slots ∧ (∀ b ∈ s.slots, s₂.sizeAt b = s.sizeAt b) ∧ SortedIndex s₂ ∧
      ∀ x, x < s.heap.array ∨ s.heap.array + 4 * s.heap.maxSize ≤ x → x < a ∨ a + N ≤ x →
        s₂.mem x = s.mem x := by
  have hadd : add32 size 20 = size + 20 := add32_of_lt hsize
  obtain ⟨hi, hfits⟩ := findSmallestHole_some hfind
  obtain ⟨-, hN, -, hlo, hhi, hv⟩ := h.around
  simp only at hN hlo hhi
  have htop := h.placed.top
  have hindex := h.placed.index
  have hread : read32 s.mem (a + 8) = N := hv.size
  have hlarge : size + 20 ≤ N := by
    rw [hadd, hword] at hfits
    simpa [fitsHole, hread] using hfits
  -- the block
  obtain ⟨p, s₁, hplace⟩ : ∃ p s₁, s.place size (size + 20) false i = (p, s₁) := ⟨_, _, rfl⟩
  obtain ⟨rfl, hw₁, hlaid₁⟩ := place_unaligned h hi hword hlarge hplace
  have hsorted₁ := place_unaligned_sorted h hsorted hi hword hlarge
  rw [hplace] at hsorted₁
  simp only at hsorted₁
  obtain ⟨ns, hns⟩ : ∃ ns, fit (size + 20) N = ns := ⟨_, rfl⟩
  rw [hns] at hlaid₁
  obtain ⟨hnsle, hnscases⟩ := fit_cases hlarge
  rw [hns] at hnsle hnscases
  have halloc : s.alloc P size false = .ok (a + 12, s₁) := by
    rw [alloc_found P hfind, hadd, hplace]
  -- and the hole again
  have hneighbours := placed_neighbours hlaid₁ (by omega) hl hr
  have hstart : s₁.heap.startAddress = s.heap.startAddress := hw₁.start
  have hfirst : l = [] → (0 : ℕ) = 0 → Kheap.leftHole (markedMem s₁ a) a = none := by
    intro hnil _
    rw [h.placed.capacity, heapIndexSize] at hindex
    exact leftHole_of_magic (by omega) (by omega) (hbelow hnil _ _ halloc)
  obtain ⟨s₃, hmerged, hfree⟩ := hneighbours.free_eq P hfirst fun hnil => absurd hnil hinner
  have hall : 0 + ns + (N - ns) = N := by omega
  rw [(hmerged.shrink_eq P hneighbours hinner _).1, Nat.add_zero] at hfree
  have hw₃ : Within s s₃ a (a + N) := by
    have hw := hmerged.within
    rw [hall] at hw
    exact hw₁.trans hw le_rfl le_rfl
  have hperm : s₃.slots.Perm (holes l ++ holes r) := by
    have hkept := hmerged.index.perm
    rwa [keptEntry, if_pos rfl, List.nil_append] at hkept
  have hsize₃ : s₃.heap.size + 1 = s.heap.size := by
    have hlength : s₃.slots.length = s₃.heap.size := Heap.length_slots
    rw [← hlength, hperm.length_eq, h.size_eq, holes_append, holes_cons_hole]
    simp only [List.length_append, List.length_cons]
    omega
  have hroom : s₃.heap.size < s₃.heap.maxSize := by
    rw [hw₃.capacity]
    have hfit := h.index.fits
    omega
  have hw₂ : Within s (s₃.insert a) a (a + N) := by
    have hw : Within s₃ (s₃.insert a) a a := within_insert hroom a
    exact hw₃.trans hw le_rfl (by omega)
  have hagree : AgreeOn s₃.mem (s₃.insert a).mem a (a + 12) := by
    have hw : Within s₃ (s₃.insert a) 0 0 := within_insert hroom a
    exact hw.agree (hw₃.placed h.placed) (by rw [hw₃.start]; exact hlo) (Or.inr (Nat.zero_le _))
  refine ⟨a + 12, s₁, s₃.insert a, halloc, hfree, ?_, ?_, fun b hb => ?_,
    hmerged.insert_sorted hneighbours hsorted₁ hroom, hw₂.bytes⟩
  · have hcount : (s₃.insert a).heap.size = s.heap.size := hsize₃
    rw [hw₂.heap, hcount]
  · have hslots : (s₃.insert a).slots.Perm (a :: (holes l ++ holes r)) := by
      have hindex₃ : Indexed s₃.heap s₃.mem (holes l ++ holes r) := ⟨hperm, hmerged.index.fits⟩
      exact (hindex₃.insert a (by omega) hroom).perm
    refine hslots.trans ?_
    have hold := h.index.perm
    rw [holes_append, holes_cons_hole] at hold
    exact (hold.trans List.perm_middle).symm
  · have hb' := h.index.perm.mem_iff.mp hb
    rw [holes_append, holes_cons_hole, List.mem_append, List.mem_cons] at hb'
    by_cases hba : b = a
    · subst hba
      change read32 (s₃.insert b).mem (b + 8) = read32 s.mem (b + 8)
      rw [hagree.read32 (by omega) le_rfl, hread]
      exact hmerged.size.trans hall
    · have hout : b ∈ holes l ++ holes r := by
        rcases hb' with hmem | hmem | hmem
        · exact List.mem_append_left _ hmem
        · exact absurd hmem hba
        · exact List.mem_append_right _ hmem
      obtain ⟨hstartb, hapart⟩ := h.hole_apart hout
      have hagreeb : AgreeOn s.mem (s₃.insert a).mem b (b + 12) :=
        hw₂.agree h.placed hstartb (by omega)
      exact hagreeb.read32 (by omega) le_rfl

/-! ### In front of the heap -/

/-- An index right in front of a heap above the magic number holds no magic number in its last two
words after the call, when it held none before. -/
lemma below_kept (h : Laid s (⟨a, N, true⟩ :: r)) (hi : i < s.heap.size)
    (hword : s.heap.word s.mem i = a) (hlarge : size + 20 ≤ N)
    (harray : s.heap.array + 4 * s.heap.maxSize = a) (habove : heapMagic < a)
    (hlast : read32 s.mem (a - 8) ≠ heapMagic ∧ read32 s.mem (a - 4) ≠ heapMagic) :
    read32 (s.place size (size + 20) false i).2.mem (a - 8) ≠ heapMagic := by
  have hroom := h.index.fits
  have hlaid : Laid s ([] ++ ⟨a, N, true⟩ :: r) := h
  obtain ⟨-, -, -, hlo, hhi, hv⟩ := hlaid.around
  simp only at hlo hhi
  have htop := h.placed.top
  have hcapacity := h.placed.capacity
  rw [heapIndexSize] at hcapacity
  obtain ⟨hle, hcases⟩ := fit_cases hlarge
  obtain ⟨ns, hns⟩ : ∃ ns, fit (size + 20) N = ns := ⟨_, rfl⟩
  have hread : s.sizeAt a = N := hv.size
  rw [place_unaligned_eq hword hread hlarge (by omega), hns]
  rw [hns] at hle hcases
  -- the last two words are those of two entries
  obtain ⟨j, hj⟩ : ∃ j, j + 2 = s.heap.maxSize := ⟨s.heap.maxSize - 2, by omega⟩
  have hat : s.heap.array + 4 * j = a - 8 := by omega
  have hat' : s.heap.array + 4 * (j + 1) = a - 4 := by omega
  have hremoved : (s.remove i).heap.word (s.remove i).mem j ≠ heapMagic := by
    change s.heap.word (s.heap.removeOrderedArray s.mem i).2 j ≠ _
    rw [Heap.word_remove hi]
    split_ifs
    · rw [Heap.word, hat']
      exact hlast.2
    · rw [Heap.word, hat]
      exact hlast.1
  have hindex := hlaid.removed hi hword
  obtain ⟨s₁, hs₁⟩ : ∃ s₁ : Kheap π, s₁ = { s.remove i with
      mem := writeChunks (s.remove i).mem (cut a ns N) } := ⟨_, rfl⟩
  have htiled : Tiled a (cut a ns N) (a + N) := cut_tiled (by omega) hcases
  have hbelow : ∀ x < a, s₁.mem x = (s.remove i).mem x := fun x hx => by
    rw [hs₁]
    exact writeChunks_byte htiled (Or.inl hx)
  have hheap₁ : s₁.heap = (s.remove i).heap := by rw [hs₁]
  have harray₁ : s₁.heap.array = s.heap.array := by rw [hheap₁]; rfl
  have hsize₁ : s₁.heap.size = s.heap.size - 1 := by rw [hheap₁]; rfl
  have hword₁ : ∀ k, s.heap.array + 4 * k + 4 ≤ a →
      s₁.heap.word s₁.mem k = (s.remove i).heap.word (s.remove i).mem k := fun k hk => by
    rw [Heap.word, harray₁]
    exact read32_congr fun x _ _ => hbelow x (by omega)
  have hkept := hword₁ j (by omega) ▸ hremoved
  rw [cut_eq (by omega) hcases (by omega) (by exact hhi), ← hs₁]
  split_ifs with hall
  · rwa [Heap.word, harray₁, hat] at hkept
  · have hitem : a + ns < 2 ^ 32 := by omega
    have hentry := Heap.word_insert (h := s₁.heap) (m := s₁.mem) (j := j) hitem rfl
    rw [Heap.word, harray₁, hat] at hentry
    change read32 (s₁.heap.insertOrderedArray s₁.mem (a + ns)).2 (a - 8) ≠ heapMagic
    rw [hentry]
    split_ifs with hout hpos
    · exact hkept
    · omega
    · -- the entry in front of it is a hole
      have hj0 : j - 1 < (s.remove i).heap.size := by
        rw [← hheap₁]
        omega
      rw [hword₁ (j - 1) (by omega)]
      have hmem := hindex.perm.mem_iff.mp (Heap.word_mem_slots hj0)
      have := (hlaid.hole_apart hmem).1
      have := h.placed.index
      omega

/-! ### A block between blocks -/

/-- A hole of 120 bytes between two blocks. -/
lemma hole_between_blocks : ∃ s : Kheap Unit, Laid s [⟨0xC0080000, 120, false⟩,
      ⟨0xC0080078, 120, true⟩, ⟨0xC00800F0, 120, false⟩, ⟨0xC0080168, 0x7FE98, true⟩] ∧
    SortedIndex s ∧ s.slots = [0xC0080078, 0xC0080168] := by
  obtain ⟨-, -, -, s₃, -, -, -, -, hlaid₃, hroom, hslots₃⟩ := three_blocks
  have h₃ : Neighbours s₃ [⟨0xC0080000, 120, false⟩] [⟨0xC00800F0, 120, false⟩,
      ⟨0xC0080168, 0x7FE98, true⟩] 0xC0080078 0 120 0 := ⟨hlaid₃, by simp, by simp⟩
  have hsorted₃ : SortedIndex s₃ := by
    rw [SortedIndex, hslots₃]
    exact List.pairwise_singleton _ _
  obtain ⟨s, hok, hlaid, -⟩ := h₃.free_interior .idle (by simp) (fun _ => hroom) (by simp)
  have hsorted := h₃.free_interior_sorted .idle (by simp) (fun _ => hroom) (by simp) (by simp) hsorted₃ hok
  have hsize : s.sizeAt 0xC0080078 = 120 := (hlaid.valid ⟨0xC0080078, 120, true⟩ (by simp)).size
  have hsize' : s.sizeAt 0xC0080168 = 0x7FE98 :=
    (hlaid.valid ⟨0xC0080168, 0x7FE98, true⟩ (by simp)).size
  have hslots := slots_of_pair hsorted hlaid.index.perm (by rw [hsize, hsize']; decide)
  exact ⟨s, hlaid, hsorted, hslots⟩

/-- A block of 50 bytes is cut from it and freed. -/
theorem free_undoes_alloc_between_blocks :
    ∃ (s : Kheap Unit) (p : ℕ) (s₁ s₂ : Kheap Unit), s.slots = [0xC0080078, 0xC0080168] ∧
      s.alloc .idle 50 false = .ok (p, s₁) ∧ s₁.free .idle p = .ok s₂ ∧ s₂.heap = s.heap ∧
      s₂.slots.Perm s.slots := by
  obtain ⟨s, hlaid, hsorted, hslots⟩ := hole_between_blocks
  have hsize : s.sizeAt 0xC0080078 = 120 := (hlaid.valid ⟨0xC0080078, 120, true⟩ (by simp)).size
  have hfits : fitsHole s.mem (add32 50 20) false 0xC0080078 = true := by
    change decide (add32 50 20 ≤ s.sizeAt 0xC0080078) = true
    rw [hsize]
    decide
  have hfind : s.findSmallestHole (add32 50 20) false = some 0 := by
    rw [Kheap.findSmallestHole, hslots, List.findIdx?_cons, hfits]
    rfl
  obtain ⟨hi, -⟩ := findSmallestHole_some hfind
  have hword : s.heap.word s.mem 0 = 0xC0080078 := by
    have hget : s.slots[0]? = some (s.heap.word s.mem 0) := Heap.getElem?_slots hi
    rw [hslots] at hget
    exact (Option.some.inj hget).symm
  have h : Laid s ([⟨0xC0080000, 120, false⟩] ++ ⟨0xC0080078, 120, true⟩ ::
      [⟨0xC00800F0, 120, false⟩, ⟨0xC0080168, 0x7FE98, true⟩]) := hlaid
  obtain ⟨p, s₁, s₂, halloc, hfree, hheap, hperm, -⟩ := free_undoes_alloc .idle h hsorted
    (by decide) hfind hword (by simp) (by simp) (by simp) (by simp)
  exact ⟨s, p, s₁, s₂, hslots, halloc, hfree, hheap, hperm⟩

end Matanos
