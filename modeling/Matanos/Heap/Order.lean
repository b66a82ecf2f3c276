import Matanos.Heap.Place

/-!
The order of the index, and the heap that `create_heap` makes.

* `SortedIndex.congr`, `SortedIndex.insert`, `SortedIndex.remove`, `SortedIndex.writeChunks`: how the
  index stays sorted; `SortedIndex.rekey`: a hole that gets another size in its place;
* `createHeap_laid`: the heap at the start is one hole.
-/

namespace Matanos

open Lib

variable {π : Type*} {s s' : Kheap π}

/-! ### The order of the index -/

/-- The entries that are left keep their order when their sizes are kept. -/
lemma SortedIndex.congr (h : SortedIndex s) (hs : s'.slots.Sublist s.slots)
    (hk : ∀ a ∈ s'.slots, s'.sizeAt a = s.sizeAt a) : SortedIndex s' := by
  have hkept : s'.slots.Pairwise (Heap.keyLe s.mem) := List.Pairwise.sublist hs h
  refine hkept.imp_of_mem fun {a b} ha hb hle => ?_
  have hsize := hk a ha
  have hsize' := hk b hb
  simp only [Kheap.sizeAt] at hsize hsize'
  change read32 _ _ ≤ read32 _ _
  rw [hsize, hsize']
  exact hle

/-- A new entry is put in its place. -/
lemma SortedIndex.insert (h : SortedIndex s) (hp : s.heap.Placed) {item : ℕ}
    (hroom : s.heap.size < s.heap.maxSize) (hlt : item < 2 ^ 32)
    (hin : ∀ a ∈ item :: s.slots, s.heap.startAddress ≤ a) : SortedIndex (s.insert item) := by
  have hw : Within s (s.insert item) 0 0 := within_insert hroom item
  have hslots : (s.insert item).slots = s.slots.orderedInsert (Heap.keyLe s.mem) item :=
    Heap.slots_insert hlt
  have : Std.Total (Heap.keyLe s.mem) := ⟨fun a b => Nat.le_total _ _⟩
  have : IsTrans ℕ (Heap.keyLe s.mem) := ⟨fun a b c => Nat.le_trans⟩
  have hsorted := List.Pairwise.orderedInsert item s.slots h
  rw [SortedIndex, hslots]
  refine hsorted.imp_of_mem fun {a b} ha hb hle => ?_
  have hkey : ∀ c ∈ s.slots.orderedInsert (Heap.keyLe s.mem) item,
      read32 (s.insert item).mem (c + 8) = read32 s.mem (c + 8) := by
    intro c hc
    have hlo := hin c (by simpa [List.mem_orderedInsert] using hc)
    have hagree : AgreeOn s.mem (s.insert item).mem c (c + 12) :=
      hw.agree hp hlo (Or.inr (Nat.zero_le c))
    exact hagree.read32 (by omega) le_rfl
  change read32 _ _ ≤ read32 _ _
  rw [hkey a ha, hkey b hb]
  exact hle

lemma SortedIndex.remove (h : SortedIndex s) (hp : s.heap.Placed)
    (hfits : s.heap.size ≤ s.heap.maxSize) {i : ℕ} (hi : i < s.heap.size)
    (hin : ∀ a ∈ s.slots, s.heap.startAddress ≤ a) : SortedIndex (s.remove i) := by
  have hw : Within s (s.remove i) 0 0 := within_remove hfits hi
  have hslots : (s.remove i).slots = s.slots.eraseIdx i := Heap.slots_remove hi
  have hsub : (s.remove i).slots.Sublist s.slots := by
    rw [hslots]
    exact List.eraseIdx_sublist _ _
  refine h.congr hsub fun a ha => ?_
  have hagree : AgreeOn s.mem (s.remove i).mem a (a + 12) :=
    hw.agree hp (hin a (hsub.mem ha)) (Or.inr (Nat.zero_le a))
  exact hagree.read32 (by omega) le_rfl

/-- The entries are in the heap. -/
lemma Laid.slot_bounds {cs : List Chunk} (h : Laid s cs) {a : ℕ} (ha : a ∈ s.slots) :
    s.heap.startAddress ≤ a ∧ a + 20 ≤ s.heap.endAddress := by
  obtain ⟨c, hc, -, rfl⟩ := mem_holes.mp (h.index.perm.mem_iff.mp ha)
  obtain ⟨h1, h2, h3⟩ := h.tiled.bounds hc
  omega

/-- Chunks of the heap are written outside the index. -/
lemma slots_writeChunks (hp : s.heap.Placed) (hfits : s.heap.size ≤ s.heap.maxSize) {a b : ℕ}
    {cs : List Chunk} (ht : Tiled a cs b) (ha : s.heap.startAddress ≤ a) :
    Kheap.slots { s with mem := writeChunks s.mem cs } = s.slots := by
  have hindex := hp.index
  change s.heap.slots (writeChunks s.mem cs) = s.heap.slots s.mem
  exact Heap.slots_congr fun x _ hx => writeChunks_byte ht (by omega)

/-- The index stays sorted when chunks are written where none of its entries is. -/
lemma SortedIndex.writeChunks (h : SortedIndex s) (hp : s.heap.Placed)
    (hfits : s.heap.size ≤ s.heap.maxSize) {a b : ℕ} {cs : List Chunk} (ht : Tiled a cs b)
    (ha : s.heap.startAddress ≤ a) (hout : ∀ c ∈ s.slots, c + 12 ≤ a ∨ b ≤ c) :
    SortedIndex { s with mem := Matanos.writeChunks s.mem cs } := by
  have hslots := slots_writeChunks hp hfits ht ha
  refine h.congr (by rw [hslots]) fun c hc => ?_
  rw [hslots] at hc
  have hle := ht.le
  have houtside := hout c hc
  exact read32_congr fun x h1 h2 => writeChunks_byte ht (by omega)

/-- The entries `l` of the index stay sorted when the size of the hole at `a` becomes `n`. -/
def KeyFits (s : Kheap π) (l : List ℕ) (a n : ℕ) : Prop :=
  ∀ as bs, l = as ++ a :: bs → (∀ b ∈ as, s.sizeAt b ≤ n) ∧ ∀ b ∈ bs, n ≤ s.sizeAt b

/-- **A hole gets another size**, in its place in the index. -/
lemma SortedIndex.rekey {a n : ℕ} (h : SortedIndex s) (hsub : s'.slots.Sublist s.slots)
    (hfits : KeyFits s s'.slots a n) (ha : s'.sizeAt a = n)
    (hk : ∀ b ∈ s'.slots, b ≠ a → s'.sizeAt b = s.sizeAt b) : SortedIndex s' := by
  have hkept : s'.slots.Pairwise (Heap.keyLe s.mem) := List.Pairwise.sublist hsub h
  refine List.pairwise_iff_getElem.mpr fun i j hi hj hij => ?_
  have hle : s.sizeAt s'.slots[i] ≤ s.sizeAt s'.slots[j] :=
    List.pairwise_iff_getElem.mp hkept i j hi hj hij
  change s'.sizeAt s'.slots[i] ≤ s'.sizeAt s'.slots[j]
  have hmemi : s'.slots[i] ∈ s'.slots := List.getElem_mem hi
  have hmemj : s'.slots[j] ∈ s'.slots := List.getElem_mem hj
  by_cases hia : s'.slots[i] = a
  · by_cases hja : s'.slots[j] = a
    · rw [hia, hja]
    · -- the other entry is behind that of `a`
      have hsplit : s'.slots = s'.slots.take i ++ a :: s'.slots.drop (i + 1) := by
        rw [← hia, List.getElem_cons_drop, List.take_append_drop]
      have hbehind : s'.slots[j] ∈ s'.slots.drop (i + 1) :=
        List.mem_drop_iff_getElem.mpr ⟨j - (i + 1), by omega, by congr 1; omega⟩
      rw [hia, ha, hk _ hmemj hja]
      exact (hfits _ _ hsplit).2 _ hbehind
  · by_cases hja : s'.slots[j] = a
    · have hsplit : s'.slots = s'.slots.take j ++ a :: s'.slots.drop (j + 1) := by
        rw [← hja, List.getElem_cons_drop, List.take_append_drop]
      have hbefore : s'.slots[i] ∈ s'.slots.take j :=
        List.mem_take_iff_getElem.mpr ⟨i, by omega, rfl⟩
      rw [hja, ha, hk _ hmemi hia]
      exact (hfits _ _ hsplit).1 _ hbefore
    · rw [hk _ hmemi hia, hk _ hmemj hja]
      exact hle

/-- Of two holes the smaller one is the first entry of a sorted index. -/
lemma slots_of_pair {x y : ℕ} (hsorted : SortedIndex s) (hperm : s.slots.Perm [x, y])
    (hlt : s.sizeAt x < s.sizeAt y) : s.slots = [x, y] := by
  rcases List.perm_pair.mp hperm with heq | heq
  · exact heq
  · rw [SortedIndex, heq, List.pairwise_pair] at hsorted
    exact absurd hsorted (Nat.not_le.mpr hlt)

/-! ### The heap at the start -/

/-- A pager that keeps nothing and never fails. -/
def Pager.idle : Pager Unit := ⟨fun _ _ _ s => .ok s, fun _ s => .ok s⟩

lemma heapStartAddress_eq {start : ℕ} (hstart : start % 0x1000 = 0) :
    Paging.heapStartAddress start = start + 0x80000 := by
  have hbit : (start + 4 * heapIndexSize) &&& 1 = 0 := by
    rw [Nat.and_one_is_mod, heapIndexSize]
    omega
  change (if (start + 4 * heapIndexSize) &&& 1 ≠ 0 then _ else start + 4 * heapIndexSize) = _
  rw [if_neg (by rw [hbit]; simp), heapIndexSize]

/-- **The heap at the start** is one hole, the only entry of the index. -/
lemma createHeap_laid (start endAddr max : ℕ) (supervisor readonly : Bool) (mem : Bytes) (pages : π)
    (hstart : start % 0x1000 = 0) (hend : endAddr % 0x1000 = 0)
    (hroom : start + 0x80000 < endAddr) (htop : endAddr < 2 ^ 32) :
    ∃ s : Kheap π, Kheap.createHeap start endAddr max supervisor readonly mem pages = .ok s ∧
      Laid s [⟨start + 0x80000, endAddr - (start + 0x80000), true⟩] ∧ SortedIndex s ∧
      s.heap = ⟨start, 1, heapIndexSize, start + 0x80000, endAddr, max, supervisor, readonly⟩ ∧
      s.slots = [start + 0x80000] := by
  rw [Kheap.createHeap, if_pos ⟨hstart, hend⟩]
  simp only [heapStartAddress_eq hstart]
  obtain ⟨st, hst⟩ : ∃ st, start + 0x80000 = st := ⟨_, rfl⟩
  rw [hst] at hroom ⊢
  rw [sub32_of_le (by omega) htop]
  obtain ⟨s₀, hs₀⟩ : ∃ s₀ : Kheap π, s₀ =
    ⟨writeHeader (fun x => if start ≤ x ∧ x < start + 4 * heapIndexSize then 0 else mem x)
        (st) 1 (endAddr - (st)),
      ⟨start, 0, heapIndexSize, st, endAddr, max, supervisor, readonly⟩, pages⟩ :=
    ⟨_, rfl⟩
  rw [← hs₀]
  have hheap₀ : s₀.heap =
      ⟨start, 0, heapIndexSize, st, endAddr, max, supervisor, readonly⟩ := by rw [hs₀]
  have hplaced : s₀.heap.Placed := by
    rw [hheap₀]
    refine ⟨rfl, ?_, by simp only; omega, htop⟩
    simp only [heapIndexSize]
    omega
  have hempty : s₀.slots = [] := by
    rw [Kheap.slots, hheap₀]
    rfl
  have hroom₀ : s₀.heap.size < s₀.heap.maxSize := by
    rw [hheap₀]
    change 0 < heapIndexSize
    decide
  have hw : Within s₀ (s₀.insert (st)) 0 0 := within_insert hroom₀ _
  have hagree : AgreeOn s₀.mem (s₀.insert (st)).mem (st)
      (st + 12) :=
    hw.agree hplaced (by rw [hheap₀]) (Or.inr (Nat.zero_le _))
  have hslots : (s₀.insert (st)).slots = [st] := by
    change (s₀.heap.insertOrderedArray s₀.mem st).1.slots
      (s₀.heap.insertOrderedArray s₀.mem st).2 = _
    rw [Heap.slots_insert (by omega)]
    change List.orderedInsert _ _ s₀.slots = _
    rw [hempty]
    rfl
  have hheap : (s₀.insert (st)).heap =
      ⟨start, 1, heapIndexSize, st, endAddr, max, supervisor, readonly⟩ := by
    rw [hw.heap, hheap₀]
    change Heap.mk _ (s₀.heap.size + 1) _ _ _ _ _ _ = _
    rw [hheap₀]
  have hmagic : read32 (s₀.insert (st)).mem (st) = heapMagic := by
    rw [hagree.read32 le_rfl (by omega), hs₀]
    exact writeHeader_magic
  have hhole : (s₀.insert (st)).mem (st + 4) = 1 := by
    rw [hagree (st + 4) (by omega) (by omega), hs₀]
    exact writeHeader_isHole
  have hsize : read32 (s₀.insert (st)).mem (st + 8)
      = endAddr - (st) := by
    rw [hagree.read32 (by omega) (by omega), hs₀]
    exact writeHeader_size (by omega)
  refine ⟨_, rfl, ⟨hw.placed hplaced, ?_, fun c hc => ?_, ?_⟩, ?_, hheap, hslots⟩
  · rw [hheap]
    exact ⟨rfl, by simp only; omega, by simp only [tiles_nil]; omega⟩
  · rw [List.mem_singleton] at hc
    subst hc
    have hend' : st + (endAddr - (st)) = endAddr := by omega
    have hfooter : ¬ ((true : Bool) = false ∨
        st + (endAddr - (st)) ≠
          (s₀.insert (st)).heap.endAddress) := by
      rw [hheap, hend']
      simp
    exact ⟨hmagic, hhole, hsize, fun h => absurd h hfooter, fun h => absurd h hfooter⟩
  · refine ⟨by rw [← Kheap.slots, hslots]; rfl, ?_⟩
    rw [hheap]
    change 1 ≤ heapIndexSize
    decide
  · rw [SortedIndex, hslots]
    exact List.pairwise_singleton _ _

/-- `create_heap` writes nothing in front of the index. -/
lemma createHeap_below {start endAddr max x : ℕ} {supervisor readonly : Bool} {mem : Bytes}
    {pages : π} (hok : Kheap.createHeap start endAddr max supervisor readonly mem pages = .ok s)
    (hx : x < start) : s.mem x = mem x := by
  rw [Kheap.createHeap] at hok
  split_ifs at hok with hcond
  rw [← Except.ok.inj hok]
  simp only [heapStartAddress_eq hcond.1]
  refine (Heap.insert_byte (Or.inl hx)).trans ?_
  exact (writeHeader_byte (Or.inl (by omega))).trans (if_neg (by omega))

end Matanos
