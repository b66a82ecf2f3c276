import Matanos.Heap.Aligned

/-!
Allocation when no hole is large enough: `expand` moves the end of the heap, and `grow` gives the
new bytes to the endmost hole of the index, or makes a hole of them when there is none.

* `endmost_eq`: the loop for the endmost entry;
* `expand_larger`: how far a successful `expand` moves the end;
* `appendHole_laid`, `extendHole_laid`: the heap with the new bytes, when nothing lies between;
* `extendHole_find`: the recursive call takes the endmost hole, wherever it lies;
* `alloc_grow_keeps_blocks_iff`: when the blocks survive.
-/

namespace Matanos

open Lib

variable {π : Type*} {s s' : Kheap π} {cs l : List Chunk}

/-! ### The new end -/

/-- The loop of `alloc` finds the greatest entry above the value it starts with. -/
lemma endmost_eq (as : List ℕ) (k : ℕ) (idx : Option ℕ) (value : ℕ) :
    (∀ x ∈ as, x ≤ value) ∧ endmost as k idx value = idx ∨
      ∃ j x, as[j]? = some x ∧ value < x ∧ (∀ y ∈ as, y ≤ x) ∧
        endmost as k idx value = some (k + j) := by
  induction as generalizing k idx value with
  | nil => exact Or.inl ⟨by simp, rfl⟩
  | cons tmp as ih =>
      by_cases htmp : tmp > value
      · rcases ih (k + 1) (some k) tmp with ⟨hle, heq⟩ | ⟨j, x, hj, hlt, hle, heq⟩
        · refine Or.inr ⟨0, tmp, rfl, htmp, ?_, by rw [endmost, if_pos htmp, heq]; rfl⟩
          exact List.forall_mem_cons.mpr ⟨le_rfl, hle⟩
        · refine Or.inr ⟨j + 1, x, by simpa using hj, htmp.trans hlt, ?_, ?_⟩
          · exact List.forall_mem_cons.mpr ⟨hlt.le, hle⟩
          · rw [endmost, if_pos htmp, heq]
            congr 1
            omega
      · rcases ih (k + 1) idx value with ⟨hle, heq⟩ | ⟨j, x, hj, hlt, hle, heq⟩
        · refine Or.inl ⟨List.forall_mem_cons.mpr ⟨by omega, hle⟩, ?_⟩
          rw [endmost, if_neg htmp, heq]
        · refine Or.inr ⟨j + 1, x, by simpa using hj, hlt, ?_, ?_⟩
          · exact List.forall_mem_cons.mpr ⟨by omega, hle⟩
          · rw [endmost, if_neg htmp, heq]
            congr 1
            omega

section Expand

variable {P : Pager π} {h h' : Heap} {pages pages' : π} {ns : ℕ}

/-- What `expand` does to the descriptor. -/
lemma expand_eq {newSize : ℕ} (hok : h.expand P newSize pages = .ok (h', pages')) :
    h.length < newSize ∧ add32 h.startAddress (Heap.roundExpand newSize) ≤ h.maxAddress ∧
      h' = { h with endAddress := add32 h.startAddress (Heap.roundExpand newSize) } := by
  rw [Heap.expand] at hok
  by_cases hlt : newSize > h.length
  · rw [if_pos hlt] at hok
    by_cases hmax : add32 h.startAddress (Heap.roundExpand newSize) ≤ h.maxAddress
    · rw [if_pos hmax] at hok
      cases hloop : h.expandLoop P (Heap.roundExpand newSize) (2 ^ 20) h.length pages with
      | error e =>
          rw [hloop] at hok
          exact absurd hok (by simp [Except.map])
      | ok s =>
          rw [hloop] at hok
          exact ⟨hlt, hmax, (Prod.mk.inj (Except.ok.inj hok)).1.symm⟩
    · rw [if_neg hmax] at hok
      exact absurd hok (by simp)
  · rw [if_neg hlt] at hok
    exact absurd hok (by simp)

/-- An `expand` for `ns` more bytes that moves the end up moves it by at least that. -/
lemma expand_larger (hok : h.expand P (add32 h.length ns) pages = .ok (h', pages'))
    (hle : h.startAddress ≤ h.endAddress) (htop : h.endAddress < 2 ^ 32) (hns : ns < 2 ^ 32)
    (hlarger : h.endAddress < h'.endAddress) :
    h' = { h with endAddress := h'.endAddress } ∧ h.endAddress + ns ≤ h'.endAddress ∧
      h'.endAddress < 2 ^ 32 := by
  obtain ⟨hlt, -, heq⟩ := expand_eq hok
  have hlength : h.length = h.endAddress - h.startAddress := sub32_of_le hle htop
  obtain ⟨x, hx⟩ : ∃ x, add32 h.length ns = x := ⟨_, rfl⟩
  obtain ⟨y, hy⟩ : ∃ y, Heap.roundExpand x = y := ⟨_, rfl⟩
  rw [hx] at hlt heq
  rw [hy] at heq
  have hsum : x = h.length + ns := by
    rw [← hx, add32] at hlt ⊢
    omega
  have hxtop : x < 2 ^ 32 := by
    rw [← hx, add32]
    omega
  -- the rounding of an odd size in the last page gives 0, and the end would be the start
  have hround : y = 0 ∨ x ≤ y ∧ y < 2 ^ 32 := by
    have hmask : x &&& 0xFFFFF000 = x / 0x1000 * 0x1000 :=
      and_highMask (n := x) (m := 20) (k := 12) (by omega)
    rw [← hy, Heap.roundExpand, hmask, add32]
    split_ifs <;> omega
  have hend : h'.endAddress = (h.startAddress + y) % 2 ^ 32 := by
    rw [heq]
    rfl
  refine ⟨by rw [hend]; exact heq, ?_, ?_⟩ <;> omega

end Expand

/-! ### The heap with the new bytes -/

section Grow

variable {a n more e : ℕ} {heap : Heap} {pages : π}

/-- The end of the heap matters only for the footer of the last hole. -/
lemma Chunk.Valid.of_end {c : Chunk} {m : Bytes} {e' : ℕ} (h : c.Valid m e)
    (hc : c.hole = false ∨ c.addr + c.size ≠ e) : c.Valid m e' where
  magic := h.magic
  isHole := h.isHole
  size := h.size
  footerMagic _ := h.footerMagic hc
  footer _ := h.footer hc

lemma no_hole_of_holes_nil (hnil : holes cs = []) {c : Chunk} (hc : c ∈ cs) : c.hole = false := by
  by_contra hhole
  have hmem : c.addr ∈ holes cs := mem_holes.mpr ⟨c, hc, by simpa using hhole, rfl⟩
  rw [hnil] at hmem
  simp at hmem

/-- `appendHole` as a chunk that is written and an insertion. -/
lemma appendHole_eq (hmore : 20 ≤ more) (htop : a + more < 2 ^ 32) :
    s.appendHole a more =
      Kheap.insert { s with mem := chunkMem s.mem ⟨a, more, true⟩ } a := by
  have hread : read32 (writeHeader s.mem a 1 more) (a + 8) = more := writeHeader_size (by omega)
  have hfoot : sub32 (add32 a more) 8 = a + more - 8 := by
    rw [add32_of_lt htop, sub32_of_le (by omega) htop]
  simp only [Kheap.appendHole, hread, hfoot]
  rfl

/-- A heap with another end. -/
lemma Heap.Placed.of_end {h : Heap} (hp : h.Placed) (htop : e < 2 ^ 32) :
    Heap.Placed { h with endAddress := e } :=
  ⟨hp.capacity, hp.index, hp.page, htop⟩

/-- A heap without holes gets one. -/
lemma appendHole_laid (h : Laid s cs) (hnil : holes cs = []) (hmem : s'.mem = s.mem)
    (hheap : s'.heap = { s.heap with endAddress := s.heap.endAddress + more }) (hmore : 20 ≤ more)
    (htop : s.heap.endAddress + more < 2 ^ 32) :
    Laid (s'.appendHole s.heap.endAddress more) (cs ++ [⟨s.heap.endAddress, more, true⟩]) ∧
      (s'.appendHole s.heap.endAddress more).slots = [s.heap.endAddress] ∧
      ∀ x, s.heap.startAddress ≤ x → x < s.heap.endAddress →
        (s'.appendHole s.heap.endAddress more).mem x = s.mem x := by
  obtain ⟨b, hb⟩ : ∃ b, s.heap.endAddress = b := ⟨_, rfl⟩
  have hle := h.tiled.le
  have htiled := h.tiled
  have hplaced : s'.heap.Placed := by
    rw [hheap]
    exact h.placed.of_end htop
  have hempty : s.slots = [] := by
    have hperm := h.index.perm
    rw [hnil] at hperm
    exact hperm.eq_nil
  have hzero : s'.heap.size = 0 := by
    have hlength : s.slots.length = s.heap.size := Heap.length_slots
    rw [hheap]
    change s.heap.size = 0
    rw [← hlength, hempty]
    rfl
  have hstart : s'.heap.startAddress = s.heap.startAddress := by rw [hheap]
  have hstop : s'.heap.endAddress = s.heap.endAddress + more := by rw [hheap]
  rw [hb] at hle htiled htop hstop ⊢
  rw [appendHole_eq hmore htop]
  obtain ⟨s₂, hs₂⟩ : ∃ s₂ : Kheap π, { s' with mem := chunkMem s'.mem ⟨b, more, true⟩ } = s₂ :=
    ⟨_, rfl⟩
  rw [hs₂]
  have hheap₂ : s₂.heap = s'.heap := by rw [← hs₂]
  have hw₂ : Within s' s₂ b (b + more) := by
    rw [← hs₂]
    exact within_mem fun x hx => chunkMem_byte hmore hx
  have hempty₂ : s₂.slots = [] := by
    rw [Kheap.slots, Heap.slots, hheap₂, hzero]
    rfl
  have hroom₂ : s₂.heap.size < s₂.heap.maxSize := by
    rw [hheap₂, hzero, hplaced.capacity]
    decide
  have hw₃ : Within s₂ (s₂.insert b) (b + more) (b + more) := within_insert hroom₂ b
  have hw : Within s' (s₂.insert b) b (b + more) := hw₂.trans hw₃ (by omega) le_rfl
  have hkeep : AgreeOn s.mem (s₂.insert b).mem s.heap.startAddress b := by
    rw [← hmem]
    exact hw.agree hplaced hstart.le (Or.inl le_rfl)
  have hslots : (s₂.insert b).slots = [b] := by
    change (s₂.heap.insertOrderedArray s₂.mem b).1.slots
      (s₂.heap.insertOrderedArray s₂.mem b).2 = _
    rw [Heap.slots_insert (by omega)]
    change List.orderedInsert _ _ s₂.slots = _
    rw [hempty₂]
    rfl
  refine ⟨⟨hw.placed hplaced, ?_, fun c hc => ?_, ?_⟩, hslots, fun x h1 h2 => hkeep x h1 h2⟩
  · rw [hw.start, hw.stop, hstart, hstop]
    exact tiles_append.mpr ⟨b, htiled, rfl, hmore, rfl⟩
  · rw [hw.stop, hstop]
    rcases List.mem_append.mp hc with hc | hc
    · obtain ⟨h1, h2, h3⟩ := htiled.bounds hc
      have hvalid : c.Valid s.mem (b + more) :=
        (h.valid c hc).of_end (Or.inl (no_hole_of_holes_nil hnil hc))
      exact hvalid.congr h3 (hkeep.mono h1 h2) id
    · rw [List.mem_singleton.mp hc]
      have hvalid : Chunk.Valid ⟨b, more, true⟩ s₂.mem (b + more) := by
        rw [← hs₂]
        exact valid_chunkMem hmore htop
      refine hw₃.valid (hw₂.placed hplaced) hvalid hmore ?_ (Or.inl le_rfl)
      rw [hw₂.start, hstart]
      exact hle
  · refine ⟨?_, ?_⟩
    · change (s₂.insert b).slots.Perm _
      rw [hslots, holes_append, hnil]
      exact List.Perm.refl _
    · exact hroom₂

/-- `extendHole` as a change of memory. -/
lemma extendHole_eq {idx : ℕ} (hword : s.heap.word s.mem idx = a) (hsize : s.sizeAt a = n)
    (hmore : 20 ≤ n + more) (htop : a + (n + more) < 2 ^ 32) :
    s.extendHole idx more = { s with
      mem := writeFooter (write32 s.mem (a + 8) (n + more)) (a + (n + more) - 8) a } := by
  have hread : read32 s.mem (a + 8) = n := hsize
  have hadd : add32 n more = n + more := add32_of_lt (by omega)
  have hread' : read32 (write32 s.mem (a + 8) (n + more)) (a + 8) = n + more :=
    read32_write32 (by omega)
  have hfoot : sub32 (add32 a (n + more)) 8 = a + (n + more) - 8 := by
    rw [add32_of_lt htop, sub32_of_le (by omega) htop]
  simp only [Kheap.extendHole, hword, hread, hadd, hread', hfoot]

/-- What the extended hole is like in memory, and what is kept. -/
lemma extendHole_spec {idx : ℕ} (h : Laid s cs) (hword : s.heap.word s.mem idx = a)
    (hsize : s.sizeAt a = n) (hlo : s.heap.startAddress ≤ a) (hmem : s'.mem = s.mem)
    (hheap : s'.heap = { s.heap with endAddress := e }) (hmore : 20 ≤ n + more)
    (htop : a + (n + more) < 2 ^ 32) :
    (s'.extendHole idx more).heap = s'.heap ∧
      (∀ x, x < a + 8 ∨ a + 12 ≤ x ∧ x < a + (n + more) - 8 ∨ a + (n + more) ≤ x →
        (s'.extendHole idx more).mem x = s.mem x) ∧
      (s'.extendHole idx more).slots = s.slots ∧ (s'.extendHole idx more).sizeAt a = n + more ∧
      read32 (s'.extendHole idx more).mem (a + (n + more) - 8) = heapMagic ∧
      read32 (s'.extendHole idx more).mem (a + (n + more) - 4) = a := by
  have hindex := h.placed.index
  have hfits := h.index.fits
  have hword' : s'.heap.word s'.mem idx = a := by
    rw [hheap, hmem]
    exact hword
  have hsize' : s'.sizeAt a = n := by
    rw [Kheap.sizeAt, hmem]
    exact hsize
  rw [extendHole_eq hword' hsize' hmore htop, hmem]
  have hfoot : a + (n + more) - 4 = a + (n + more) - 8 + 4 := by omega
  have hbyte : ∀ x, x < a + 8 ∨ a + 12 ≤ x ∧ x < a + (n + more) - 8 ∨ a + (n + more) ≤ x →
      writeFooter (write32 s.mem (a + 8) (n + more)) (a + (n + more) - 8) a x = s.mem x := by
    intro x hx
    rw [writeFooter_byte (by omega), write32_byte (by omega)]
  refine ⟨rfl, hbyte, ?_, ?_, writeFooter_magic, ?_⟩
  · change s'.heap.slots _ = s.heap.slots s.mem
    rw [hheap]
    change s.heap.slots (writeFooter (write32 s.mem (a + 8) (n + more)) (a + (n + more) - 8) a) = _
    exact Heap.slots_congr fun x _ hx => hbyte x (by omega)
  · change read32 (writeFooter (write32 s.mem (a + 8) (n + more)) _ a) (a + 8) = n + more
    rw [writeFooter_read (by omega), read32_write32 (by omega)]
  · change read32 (writeFooter (write32 s.mem (a + 8) (n + more)) _ a) _ = a
    rw [hfoot, writeFooter_header (by omega)]

/-- The last hole gets the new bytes. -/
lemma extendHole_laid {idx : ℕ} (h : Laid s (l ++ [⟨a, n, true⟩]))
    (hword : s.heap.word s.mem idx = a) (hmem : s'.mem = s.mem)
    (hheap : s'.heap = { s.heap with endAddress := s.heap.endAddress + more })
    (htop : s.heap.endAddress + more < 2 ^ 32) :
    Laid (s'.extendHole idx more) (l ++ [⟨a, n + more, true⟩]) := by
  obtain ⟨hl, hn, hr, hlo, hhi, hv⟩ := h.around
  simp only [tiles_nil] at hl hn hr hlo hhi
  have hread : s.sizeAt a = n := hv.size
  have hmore : 20 ≤ n + more := by omega
  have hsum : a + (n + more) < 2 ^ 32 := by omega
  obtain ⟨hkeep, hbyte, hslots, hsize, hmagic, hfooter⟩ := extendHole_spec h hword hread hlo hmem
    hheap hmore hsum
  have hplaced : s'.heap.Placed := by
    rw [hheap]
    exact h.placed.of_end htop
  have hstart : s'.heap.startAddress = s.heap.startAddress := by rw [hheap]
  have hstop : s'.heap.endAddress = a + (n + more) := by
    rw [hheap]
    change s.heap.endAddress + more = _
    omega
  refine ⟨?_, ?_, fun c hc => ?_, ?_⟩
  · rw [hkeep]
    exact hplaced
  · rw [hkeep, hstart, hstop]
    exact tiles_append.mpr ⟨a, hl, rfl, hmore, rfl⟩
  · rw [hkeep, hstop]
    rcases List.mem_append.mp hc with hc | hc
    · obtain ⟨h1, h2, h3⟩ := hl.bounds hc
      have hvalid : c.Valid s.mem (a + (n + more)) :=
        (h.valid c (List.mem_append_left _ hc)).of_end (Or.inr (by omega))
      exact hvalid.congr h3 (fun x _ hx => hbyte x (by omega)) id
    · rw [List.mem_singleton.mp hc]
      refine ⟨?_, ?_, hsize, fun _ => hmagic, fun _ => hfooter⟩
      · change read32 _ a = _
        rw [read32_congr fun x _ _ => hbyte x (by omega)]
        exact hv.magic
      · change Kheap.mem _ (a + 4) = _
        rw [hbyte _ (by omega)]
        exact hv.isHole
  · refine ⟨?_, ?_⟩
    · change (s'.extendHole idx more).slots.Perm _
      rw [hslots, holes_append]
      have hperm := h.index.perm
      rw [holes_append] at hperm
      exact hperm
    · rw [hkeep, hheap]
      exact h.index.fits

/-- The extended hole is the one that is found. -/
lemma extendHole_find {idx ns : ℕ} {r : List Chunk} (h : Laid s (l ++ ⟨a, n, true⟩ :: r))
    (hmax : ∀ b ∈ s.slots, b ≤ a) (hnone : s.findSmallestHole ns false = none)
    (hword : s.heap.word s.mem idx = a) (hmem : s'.mem = s.mem)
    (hheap : s'.heap = { s.heap with endAddress := e }) (hns : ns ≤ more)
    (htop : a + (n + more) < 2 ^ 32) :
    ∃ i, (s'.extendHole idx more).findSmallestHole ns false = some i ∧
      i < (s'.extendHole idx more).heap.size ∧
      (s'.extendHole idx more).heap.word (s'.extendHole idx more).mem i = a := by
  obtain ⟨-, hn, -, hlo, -, hv⟩ := h.around
  simp only at hn hlo
  have hread : s.sizeAt a = n := hv.size
  have hmore : 20 ≤ n + more := by omega
  obtain ⟨-, hbyte, hslots, hsize, -, -⟩ := extendHole_spec h hword hread hlo hmem hheap hmore htop
  have hamem : a ∈ s.slots := by
    refine h.index.perm.mem_iff.mpr ?_
    rw [holes_append, holes_cons_hole]
    simp
  have hlarge : ns ≤ (s'.extendHole idx more).sizeAt a := by omega
  rw [← hslots] at hamem
  obtain ⟨i, hi⟩ := exists_findSmallestHole hamem hlarge
  obtain ⟨hlt, hfits⟩ := findSmallestHole_some hi
  refine ⟨i, hi, hlt, ?_⟩
  by_contra hne
  obtain ⟨b, hb⟩ : ∃ b, (s'.extendHole idx more).heap.word (s'.extendHole idx more).mem i = b :=
    ⟨_, rfl⟩
  rw [hb] at hfits hne
  have hbmem : b ∈ s.slots := by
    rw [← hslots, ← hb]
    exact Heap.word_mem_slots hlt
  -- another hole lies below, and is as small as before
  have hbelow : b + 12 ≤ a := by
    have hle := hmax b hbmem
    obtain ⟨c, hc, hchole, hcaddr⟩ := mem_holes.mp (h.index.perm.mem_iff.mp hbmem)
    have hapart := h.tiled.apart hc (List.mem_append_right _ List.mem_cons_self)
    have hbounds := h.tiled.bounds hc
    rcases hapart with rfl | hapart | hapart
    · exact absurd hcaddr.symm hne
    · simp only at hapart
      omega
    · simp only at hapart
      omega
  have hsame : read32 (s'.extendHole idx more).mem (b + 8) = read32 s.mem (b + 8) :=
    read32_congr fun x _ _ => hbyte x (by omega)
  have hsmall := List.findIdx?_eq_none_iff.mp hnone b hbmem
  simp only [fitsHole, Bool.false_eq_true, if_false, hsame, decide_eq_true_eq,
    decide_eq_false_iff_not] at hfits hsmall
  exact hsmall hfits

end Grow

/-! ### The call -/

/-- The block at `p` lies in a hole that covers only former holes of the chunks `cs` and new bytes
behind the old end, in an intact heap that keeps every block with its bytes. -/
def GrowsInto (s : Kheap π) (cs : List Chunk) (size p : ℕ) (s' : Kheap π) : Prop :=
  ∃ cs' k a, Laid s' cs' ∧ (∀ c ∈ cs, c.hole = false → c ∈ cs') ∧ ⟨p - 12, k, false⟩ ∈ cs' ∧
    size + 20 ≤ k ∧ a ≤ p - 12 ∧ p + size + 8 ≤ s'.heap.endAddress ∧
    (∀ x, a ≤ x → x < s'.heap.endAddress → s.heap.endAddress ≤ x ∨
      ∃ c ∈ cs, c.hole = true ∧ c.addr ≤ x ∧ x < c.addr + c.size) ∧
    ∀ c ∈ cs, c.hole = false → ∀ x, c.addr ≤ x → x < c.addr + c.size → s'.mem x = s.mem x

/-- The heap grows by a successful `expand`, for an unaligned request that no hole can hold. -/
structure Grows (P : Pager π) (s : Kheap π) (size : ℕ) (h' : Heap) (pages' : π) : Prop where
  noHole : s.findSmallestHole (add32 size 20) false = none
  expanded : s.heap.expand P (add32 s.heap.length (add32 size 20)) s.pages = .ok (h', pages')
  larger : s.heap.endAddress < h'.endAddress

section Call

variable {P : Pager π} {size i a m : ℕ} {h' : Heap} {pages' : π}

/-- The endmost entry of the index. -/
lemma Laid.endmost (h : Laid s cs) (hne : holes cs ≠ []) :
    ∃ idx a n l r, Matanos.endmost s.slots 0 none 0 = some idx ∧
      s.heap.word s.mem idx = a ∧ cs = l ++ ⟨a, n, true⟩ :: r ∧ ∀ b ∈ s.slots, b ≤ a := by
  rcases endmost_eq s.slots 0 none 0 with ⟨hle, -⟩ | ⟨j, x, hj, -, hmax, heq⟩
  · exfalso
    obtain ⟨b, hb⟩ := List.exists_mem_of_ne_nil _ hne
    have hslot : b ∈ s.slots := h.index.perm.mem_iff.mpr hb
    have hstart := (h.slot_bounds hslot).1
    have hindex := h.placed.index
    have hzero := hle b hslot
    rw [h.placed.capacity, heapIndexSize] at hindex
    omega
  · have hlt : j < s.heap.size := by
      have hlength : s.slots.length = s.heap.size := Heap.length_slots
      rw [← hlength]
      exact (List.getElem?_eq_some_iff.mp hj).1
    have hword : s.heap.word s.mem j = x := by
      have hget : s.slots[j]? = some (s.heap.word s.mem j) := Heap.getElem?_slots hlt
      exact Option.some.inj (hget.symm.trans hj)
    obtain ⟨l, n, r, hcs⟩ := h.hole_of_slot hlt
    rw [hword] at hcs
    exact ⟨j, x, n, l, r, by rw [heq, Nat.zero_add], hword, hcs, hmax⟩

/-- The descriptor after `expand`. -/
lemma Grows.bounds (hg : Grows P s size h' pages') (h : Laid s cs) :
    h' = { s.heap with endAddress := h'.endAddress } ∧ h'.endAddress < 2 ^ 32 ∧
      s.heap.endAddress + add32 size 20 ≤ h'.endAddress := by
  have hns : add32 size 20 < 2 ^ 32 := Nat.mod_lt _ (by norm_num)
  obtain ⟨h1, h2, h3⟩ := expand_larger hg.expanded h.tiled.le h.placed.top hns hg.larger
  exact ⟨h1, h3, h2⟩

/-- `grow` after a successful `expand`. -/
lemma Grows.grow_eq (hg : Grows P s size h' pages') (h : Laid s cs) :
    s.grow P (add32 size 20) = .ok (match Matanos.endmost s.slots 0 none 0 with
      | none => Kheap.appendHole s.heap.endAddress (h'.endAddress - s.heap.endAddress)
          { s with heap := h', pages := pages' }
      | some idx => Kheap.extendHole idx (h'.endAddress - s.heap.endAddress)
          { s with heap := h', pages := pages' }) := by
  obtain ⟨hheap, htop, -⟩ := hg.bounds h
  have hle := h.tiled.le
  have hlarger := hg.larger
  have hslots : Kheap.slots { s with heap := h', pages := pages' } = s.slots := by
    change h'.slots s.mem = s.heap.slots s.mem
    rw [hheap]
    rfl
  have hlength : h'.length = h'.endAddress - s.heap.startAddress := by
    have hstart : h'.startAddress = s.heap.startAddress := by rw [hheap]
    rw [Heap.length, hstart, sub32_of_le (by omega) htop]
  have hold : s.heap.length = s.heap.endAddress - s.heap.startAddress :=
    sub32_of_le hle h.placed.top
  have hmore : sub32 h'.length s.heap.length = h'.endAddress - s.heap.endAddress := by
    rw [hlength, hold, sub32_of_le (by omega) (by omega)]
    omega
  rw [Kheap.grow, hg.expanded, ← hslots, ← hmore]
  rfl

/-- The new bytes, as a hole or added to one. -/
lemma Grows.grown (hg : Grows P s size h' pages') (h : Laid s cs) (hsize : size + 20 < 2 ^ 32) :
    ∃ (s₁ : Kheap π) (more : ℕ), s₁.mem = s.mem ∧
      s₁.heap = { s.heap with endAddress := s.heap.endAddress + more } ∧ size + 20 ≤ more ∧
      s.heap.endAddress + more = h'.endAddress ∧ s.heap.endAddress + more < 2 ^ 32 ∧
      s.grow P (add32 size 20) = .ok (match Matanos.endmost s.slots 0 none 0 with
        | none => s₁.appendHole s.heap.endAddress more
        | some idx => s₁.extendHole idx more) := by
  obtain ⟨hheap, htop, hend⟩ := hg.bounds h
  have hgrow := hg.grow_eq h
  rw [add32_of_lt hsize] at hend
  obtain ⟨e, he⟩ : ∃ e, h'.endAddress = e := ⟨_, rfl⟩
  rw [he] at htop hheap hgrow hend ⊢
  obtain ⟨more, rfl⟩ : ∃ more, e = s.heap.endAddress + more := ⟨e - s.heap.endAddress, by omega⟩
  rw [Nat.add_sub_cancel_left] at hgrow
  exact ⟨{ s with heap := h', pages := pages' }, more, rfl, hheap, by omega, rfl, htop, hgrow⟩

/-- The recursive call takes the hole that is found then, whatever number of calls is allowed. -/
lemma allocCalls_grown {pageAlign : Bool} (hnone : s.findSmallestHole (add32 size 20) pageAlign = none)
    (hgrow : s.grow P (add32 size 20) = .ok s')
    (hfind : s'.findSmallestHole (add32 size 20) pageAlign = some i) (n : ℕ) :
    s.allocCalls P size pageAlign (n + 2) = .ok (s'.place size (add32 size 20) pageAlign i) := by
  rw [Kheap.allocCalls]
  simp only [hnone, hgrow]
  change s'.allocCalls P size pageAlign (n + 1) = _
  rw [Kheap.allocCalls]
  simp only [hfind]

lemma Grows.alloc_eq (hg : Grows P s size h' pages')
    (hgrow : s.grow P (add32 size 20) = .ok s')
    (hfind : s'.findSmallestHole (add32 size 20) false = some i) :
    s.alloc P size false = .ok (s'.place size (add32 size 20) false i) := by
  rw [Kheap.alloc, show 2 ^ 32 = 4294967294 + 2 from rfl]
  exact allocCalls_grown hg.noHole hgrow hfind _

/-- A block from the grown hole at the end of the heap. -/
lemma growsInto_of_last {s₁ : Kheap π} {p : ℕ} (h₁ : Laid s₁ (l ++ [⟨a, m, true⟩])) (hi : i < s₁.heap.size)
    (hword : s₁.heap.word s₁.mem i = a) (hsize : size + 20 ≤ m)
    (hplace : s₁.place size (size + 20) false i = (p, s'))
    (hstart : s₁.heap.startAddress = s.heap.startAddress)
    (hbytes : ∀ x, s.heap.startAddress ≤ x → x < a → s₁.mem x = s.mem x)
    (hblocks : ∀ c ∈ cs, c.hole = false → c ∈ l)
    (hformer : ∀ x, a ≤ x → x < s.heap.endAddress →
      ∃ c ∈ cs, c.hole = true ∧ c.addr ≤ x ∧ x < c.addr + c.size) :
    GrowsInto s cs size p s' := by
  obtain ⟨hl, hm, hend, hlo, hhi, -⟩ := h₁.around
  simp only [tiles_nil] at hl hm hend hlo hhi
  obtain ⟨hp, hw, hlaid⟩ := place_unaligned h₁ hi hword hsize hplace
  obtain ⟨hfit, hcases⟩ := fit_cases hsize
  refine ⟨_, fit (size + 20) m, a, hlaid, fun c hc hblock => ?_, ?_, hfit, by omega, ?_, ?_, ?_⟩
  · exact List.mem_append_left _ (hblocks c hc hblock)
  · rw [hp, Nat.add_sub_cancel, cut]
    simp
  · rw [hw.stop]
    omega
  · intro x hx _
    by_cases hold : s.heap.endAddress ≤ x
    · exact Or.inl hold
    · exact Or.inr (hformer x hx (by omega))
  · intro c hc hblock x hx hx'
    obtain ⟨h1, h2, -⟩ := hl.bounds (hblocks c hc hblock)
    have hindex := h₁.placed.index
    rw [hw.bytes x (by omega) (by omega)]
    exact hbytes x (by omega) (by omega)

/-- A heap without holes grows by a hole of its own. -/
lemma Grows.append (hg : Grows P s size h' pages') (h : Laid s cs) (hsize : size + 20 < 2 ^ 32)
    (hnil : holes cs = []) :
    ∃ p s', s.alloc P size false = .ok (p, s') ∧ GrowsInto s cs size p s' := by
  obtain ⟨s₁, more, hmem₁, hheap₁, hneed, -, htop, hgrow⟩ := hg.grown h hsize
  have hadd : add32 size 20 = size + 20 := add32_of_lt hsize
  have hempty : s.slots = [] := by
    have hperm := h.index.perm
    rw [hnil] at hperm
    exact hperm.eq_nil
  rw [hempty] at hgrow
  obtain ⟨hlaid, hslots, hbytes⟩ := appendHole_laid h hnil hmem₁ hheap₁ (by omega) (by omega)
  obtain ⟨s₂, hs₂⟩ : ∃ s₂, s₁.appendHole s.heap.endAddress more = s₂ := ⟨_, rfl⟩
  rw [hs₂] at hlaid hslots hbytes
  have hgrow' : s.grow P (add32 size 20) = .ok s₂ := by
    rw [hgrow, ← hs₂]
    rfl
  have hsize₂ : s₂.sizeAt s.heap.endAddress = more :=
    (hlaid.valid ⟨s.heap.endAddress, more, true⟩ (by simp)).size
  have hmem₂ : s.heap.endAddress ∈ s₂.slots := by
    rw [hslots]
    exact List.mem_singleton_self _
  have hlarge : size + 20 ≤ s₂.sizeAt s.heap.endAddress := by omega
  obtain ⟨i, hi⟩ := exists_findSmallestHole hmem₂ hlarge
  obtain ⟨hlt, -⟩ := findSmallestHole_some hi
  have hword : s₂.heap.word s₂.mem i = s.heap.endAddress := by
    have hslot : s₂.heap.word s₂.mem i ∈ s₂.slots := Heap.word_mem_slots hlt
    rw [hslots] at hslot
    exact List.mem_singleton.mp hslot
  obtain ⟨p, s', hplace⟩ : ∃ p s', s₂.place size (size + 20) false i = (p, s') := ⟨_, _, rfl⟩
  refine ⟨p, s', ?_, growsInto_of_last hlaid hlt hword (by omega) hplace ?_ hbytes
    (fun c hc _ => hc) fun x hx hlt => by omega⟩
  · rw [hg.alloc_eq hgrow' (by rw [hadd]; exact hi), hadd, hplace]
  · rw [← hs₂]
    change s₁.heap.startAddress = _
    rw [hheap₁]

/-- A heap with a hole grows at the endmost one: the block is placed there. -/
lemma Grows.extend (hg : Grows P s size h' pages') (h : Laid s cs) (hsize : size + 20 < 2 ^ 32)
    (hne : holes cs ≠ []) :
    ∃ (a n idx i more : ℕ) (l r : List Chunk) (s₁ s₂ : Kheap π),
      cs = l ++ ⟨a, n, true⟩ :: r ∧ (∀ b ∈ s.slots, b ≤ a) ∧
      s.heap.word s.mem idx = a ∧ s₁.mem = s.mem ∧
      s₁.heap = { s.heap with endAddress := s.heap.endAddress + more } ∧
      s.heap.endAddress + more = h'.endAddress ∧ size + 20 ≤ more ∧
      s₁.extendHole idx more = s₂ ∧ i < s₂.heap.size ∧ s₂.heap.word s₂.mem i = a ∧
      s.alloc P size false = .ok (s₂.place size (size + 20) false i) := by
  obtain ⟨s₁, more, hmem₁, hheap₁, hneed, hnew, htop, hgrow⟩ := hg.grown h hsize
  have hadd : add32 size 20 = size + 20 := add32_of_lt hsize
  obtain ⟨idx, a, n, l, r, hidx, hword, hcs, hmax⟩ := h.endmost hne
  rw [hidx] at hgrow
  obtain ⟨s₂, hs₂⟩ : ∃ s₂, s₁.extendHole idx more = s₂ := ⟨_, rfl⟩
  have hgrow' : s.grow P (add32 size 20) = .ok s₂ := by
    rw [hgrow, ← hs₂]
  rw [hcs] at h
  obtain ⟨-, -, -, -, hhi, -⟩ := h.around
  simp only at hhi
  have hnone := hg.noHole
  rw [hadd] at hnone
  have hsum : a + (n + more) < 2 ^ 32 := by omega
  obtain ⟨i, hi, hlt, hslot⟩ := extendHole_find h hmax hnone hword hmem₁ hheap₁ hneed hsum
  rw [hs₂] at hi hlt hslot
  refine ⟨a, n, idx, i, more, l, r, s₁, s₂, hcs, hmax, hword, hmem₁, hheap₁, hnew, hneed, hs₂, hlt,
    hslot, ?_⟩
  rw [hg.alloc_eq hgrow' (by rw [hadd]; exact hi), hadd]

/-- The blocks survive when the last chunk is a hole. -/
lemma Grows.extend_last (hg : Grows P s size h' pages') {n : ℕ} (h : Laid s (l ++ [⟨a, n, true⟩]))
    (hsize : size + 20 < 2 ^ 32) :
    ∃ p s', s.alloc P size false = .ok (p, s') ∧ GrowsInto s (l ++ [⟨a, n, true⟩]) size p s' := by
  obtain ⟨-, htop, -⟩ := hg.bounds h
  obtain ⟨hl, hn, hend, hlo, hhi, hv⟩ := h.around
  simp only [tiles_nil] at hl hn hend hlo hhi
  obtain ⟨b, n', idx, i, more, l', r, s₁, s₂, hcs, hmax, hword, hmem₁, hheap₁, hnew, hmore, hs₂,
    hlt, hslot, halloc⟩ := hg.extend h hsize (by simp)
  have hamem : a ∈ s.slots := h.index.perm.mem_iff.mpr (by simp)
  have hab := hmax a hamem
  have hbmem : ⟨b, n', true⟩ ∈ l ++ [⟨a, n, true⟩] := by
    rw [hcs]
    simp
  -- the endmost hole is the last chunk
  obtain rfl : b = a := by
    rcases List.mem_append.mp hbmem with hb | hb
    · have hbounds := hl.bounds hb
      simp only at hbounds
      omega
    · exact (Chunk.mk.inj (List.mem_singleton.mp hb)).1
  have hlaid := extendHole_laid h hword hmem₁ hheap₁ (by omega)
  rw [hs₂] at hlaid
  have hread : s.sizeAt b = n := hv.size
  have hlarge : 20 ≤ n + more := by omega
  have hsum : b + (n + more) < 2 ^ 32 := by omega
  obtain ⟨hkeep, hbyte, -, -, -, -⟩ := extendHole_spec h hword hread hlo hmem₁ hheap₁ hlarge hsum
  rw [hs₂] at hkeep hbyte
  have hstart : s₂.heap.startAddress = s.heap.startAddress := by
    rw [hkeep, hheap₁]
  obtain ⟨p, s', hplace⟩ : ∃ p s', s₂.place size (size + 20) false i = (p, s') := ⟨_, _, rfl⟩
  refine ⟨p, s', by rw [halloc, hplace], growsInto_of_last hlaid hlt hslot (by omega) hplace hstart
    (fun x _ hx => hbyte x (by omega)) (fun c hc hblock => ?_) fun x hx hx' => ?_⟩
  · rcases List.mem_append.mp hc with hc | hc
    · exact hc
    · rw [List.mem_singleton.mp hc] at hblock
      exact absurd hblock (by simp)
  · refine ⟨⟨b, n, true⟩, by simp, rfl, hx, ?_⟩
    simp only
    omega

/-- The block starts in the endmost hole. -/
lemma Grows.pointer (hg : Grows P s size h' pages') (h : Laid s cs) (hsize : size + 20 < 2 ^ 32)
    (hne : holes cs ≠ []) :
    ∃ a n l r s', cs = l ++ ⟨a, n, true⟩ :: r ∧ (∀ b ∈ s.slots, b ≤ a) ∧ n < size + 20 ∧
      s.alloc P size false = .ok (a + 12, s') := by
  obtain ⟨a, n, idx, i, more, l, r, s₁, s₂, rfl, hmax, hword, hmem₁, hheap₁, hnew, hmore, hs₂,
    hlt, hslot, halloc⟩ := hg.extend h hsize hne
  obtain ⟨-, htop, -⟩ := hg.bounds h
  obtain ⟨-, hn, -, hlo, hhi, hv⟩ := h.around
  simp only at hn hlo hhi
  have hread : s.sizeAt a = n := hv.size
  have hlarge : 20 ≤ n + more := by omega
  have hsum : a + (n + more) < 2 ^ 32 := by omega
  obtain ⟨-, -, -, hread₂, -, -⟩ := extendHole_spec h hword hread hlo hmem₁ hheap₁ hlarge hsum
  rw [hs₂] at hread₂
  have hsmall : n < size + 20 := by
    have hadd : add32 size 20 = size + 20 := add32_of_lt hsize
    have hamem : a ∈ s.slots := h.index.perm.mem_iff.mpr (by simp)
    have hnone := List.findIdx?_eq_none_iff.mp hg.noHole a hamem
    have hsizeAt : read32 s.mem (a + 8) = n := hread
    simpa [fitsHole, hadd, hsizeAt] using hnone
  have hneed : size + 20 ≤ n + more := by omega
  have hplace := place_unaligned_eq hslot hread₂ hneed (by omega)
  exact ⟨a, n, l, r, _, rfl, hmax, hsmall, by rw [halloc, hplace]⟩

/-- They survive only then. -/
lemma Grows.last_of_growsInto (hg : Grows P s size h' pages') (h : Laid s cs)
    (hkept : ∃ p s', s.alloc P size false = .ok (p, s') ∧ GrowsInto s cs size p s') :
    size + 20 < 2 ^ 32 ∧ (holes cs = [] ∨ ∃ l a n, cs = l ++ [⟨a, n, true⟩]) := by
  obtain ⟨p, s', hal, cs', k, c, hlaid, -, hblock, hk, hcp, hend, hcover, -⟩ := hkept
  have hsize : size + 20 < 2 ^ 32 := by
    have hbounds := hlaid.tiled.bounds hblock
    have htop := hlaid.placed.top
    simp only at hbounds
    omega
  refine ⟨hsize, ?_⟩
  by_contra hlast
  simp only [not_or, not_exists] at hlast
  obtain ⟨a, n, l, r, s₁, rfl, hmax, hsmall, halloc⟩ := hg.pointer h hsize hlast.1
  obtain ⟨-, hn, htiled, hlo, hhi, hv⟩ := h.around
  simp only at hn htiled hlo hhi
  have hp : p = a + 12 := (Prod.mk.inj (Except.ok.inj (hal.symm.trans halloc))).1
  -- the block covers the start of the block behind that hole
  cases r with
  | nil => exact hlast.2 l a n rfl
  | cons d r =>
      obtain ⟨hd, hdsize, hrest⟩ := htiled
      have hrestle := hrest.le
      have hdmem : d ∈ l ++ ⟨a, n, true⟩ :: d :: r := by simp
      have hdblock : d.hole = false := by
        by_contra hdhole
        have hslotd : d.addr ∈ s.slots := h.index.perm.mem_iff.mpr
          (mem_holes.mpr ⟨d, hdmem, by simpa using hdhole, rfl⟩)
        have hle := hmax _ hslotd
        omega
      rcases hcover (a + n) (by omega) (by omega) with hold | ⟨b, hb, hbhole, hblo, hbhi⟩
      · omega
      · rcases h.tiled.apart hb hdmem with rfl | hapart | hapart
        · rw [hbhole] at hdblock
          exact absurd hdblock (by simp)
        · omega
        · have hbsize := (h.tiled.bounds hb).2.2
          omega

end Call

/-- Growing the heap keeps the blocks if and only if the request does not wrap, and the last chunk is
a hole or there is no hole at all. -/
theorem alloc_grow_keeps_blocks_iff {π : Type*} {P : Pager π} {s : Kheap π} {cs : List Chunk}
    {size : ℕ} {h' : Heap} {pages' : π} (h : Laid s cs) (hg : Grows P s size h' pages') :
    (∃ p s', s.alloc P size false = .ok (p, s') ∧ GrowsInto s cs size p s') ↔
      size + 20 < 2 ^ 32 ∧ (holes cs = [] ∨ ∃ l a n, cs = l ++ [⟨a, n, true⟩]) := by
  refine ⟨hg.last_of_growsInto h, ?_⟩
  rintro ⟨hsize, hnil | ⟨l, a, n, rfl⟩⟩
  · exact hg.append h hsize hnil
  · exact hg.extend_last h hsize

section Idle

variable {size : ℕ} {s : Kheap Unit}

lemma expandLoop_idle {h : Heap} {newSize : ℕ} (htop : newSize + 0x1000 < 2 ^ 32) (n i : ℕ)
    (hn : newSize ≤ i + 0x1000 * n) : h.expandLoop .idle newSize n i () = .ok () := by
  induction n generalizing i with
  | zero => rw [Heap.expandLoop, if_neg (by omega)]
  | succ n ih =>
      rw [Heap.expandLoop]
      split_ifs with hlt
      · rw [add32_of_lt (by omega : i + 0x1000 < 2 ^ 32)]
        exact ih (i + 0x1000) (by omega)
      · rfl

/-- A heap that grows without a pager in its way. -/
lemma grows_idle (h : Laid s cs) (hsmall : ∀ c ∈ cs, c.hole = true → c.size < size + 20)
    (heven : (s.heap.endAddress - s.heap.startAddress + (size + 20)) % 2 = 0)
    (hmax : s.heap.endAddress + (size + 20) ≤ s.heap.maxAddress)
    (htop : s.heap.endAddress + (size + 20) + 0x1000 < 2 ^ 32) :
    Grows .idle s size { s.heap with endAddress := s.heap.endAddress + (size + 20) } () := by
  have hle := h.tiled.le
  have hadd : add32 size 20 = size + 20 := add32_of_lt (by omega)
  have hlength : s.heap.length = s.heap.endAddress - s.heap.startAddress :=
    sub32_of_le hle h.placed.top
  obtain ⟨x, hx⟩ : ∃ x, s.heap.endAddress - s.heap.startAddress + (size + 20) = x := ⟨_, rfl⟩
  have hsum : add32 s.heap.length (size + 20) = x := by
    rw [hlength, add32_of_lt (by omega), hx]
  have hround : Heap.roundExpand x = x := by
    rw [Heap.roundExpand_eq (by omega), if_neg (by omega)]
  have hend : add32 s.heap.startAddress x = s.heap.endAddress + (size + 20) := by
    rw [add32_of_lt (by omega)]
    omega
  refine ⟨?_, ?_, ?_⟩
  · rw [hadd, Kheap.findSmallestHole, List.findIdx?_eq_none_iff]
    intro a ha
    obtain ⟨c, hc, hhole, rfl⟩ := mem_holes.mp (h.index.perm.mem_iff.mp ha)
    have hlt := hsmall c hc hhole
    have hread := (h.valid c hc).size
    simp only [fitsHole, Bool.false_eq_true, if_false, hread, decide_eq_false_iff_not]
    omega
  · have hloop : s.heap.expandLoop .idle x (2 ^ 20) (s.heap.endAddress - s.heap.startAddress) ()
        = .ok () := expandLoop_idle (by omega) _ _ (by omega)
    rw [hadd, hsum, Heap.expand, if_pos (by rw [hlength]; omega)]
    simp only [hround]
    rw [hend, if_pos hmax, hlength, hloop]
    rfl
  · change s.heap.endAddress < s.heap.endAddress + (size + 20)
    omega

/-- The heap at the start, for a block that is larger than its hole. -/
lemma grows_start : ∃ s : Kheap Unit,
    Kheap.createHeap 0xC0000000 0xC0100000 0xCFFFF000 false false (fun _ => 0) () = .ok s ∧
      Laid s [⟨0xC0080000, 0x80000, true⟩] ∧ s.slots = [0xC0080000] ∧
      s.heap = ⟨0xC0000000, 1, heapIndexSize, 0xC0080000, 0xC0100000, 0xCFFFF000, false, false⟩ ∧
      Grows .idle s 0x80000 { s.heap with endAddress := s.heap.endAddress + (0x80000 + 20) } () := by
  obtain ⟨s, hs, hlaid, -, hheap, hslots⟩ := createHeap_laid 0xC0000000 0xC0100000 0xCFFFF000
    false false (fun _ => 0) () (by decide) (by decide) (by decide) (by decide)
  refine ⟨s, hs, hlaid, hslots, hheap, grows_idle hlaid ?_ ?_ ?_ ?_⟩
  · intro c hc _
    rw [List.mem_singleton.mp hc]
    simp
  all_goals
    rw [hheap]
    decide

/-- The heap at the start grows for a block that is larger than its hole. -/
theorem alloc_grow_keeps_blocks_iff_first :
    ∃ s : Kheap Unit,
      Kheap.createHeap 0xC0000000 0xC0100000 0xCFFFF000 false false (fun _ => 0) () = .ok s ∧
      ((∃ p s', s.alloc .idle 0x80000 false = .ok (p, s') ∧
          GrowsInto s [⟨0xC0080000, 0x80000, true⟩] 0x80000 p s') ↔
        0x80000 + 20 < 2 ^ 32 ∧ (holes [⟨0xC0080000, 0x80000, true⟩] = [] ∨
          ∃ l a n, [(⟨0xC0080000, 0x80000, true⟩ : Chunk)] = l ++ [⟨a, n, true⟩])) := by
  obtain ⟨s, hs, hlaid, -, -, hgrows⟩ := grows_start
  exact ⟨s, hs, alloc_grow_keeps_blocks_iff hlaid hgrows⟩

/-- A page takes all but the front of the heap at the start. -/
lemma page_fills_heap :
    ∃ s s₁ : Kheap Unit,
      Kheap.createHeap 0xC0000000 0xC0100000 0xCFFFF000 false false (fun _ => 0) () = .ok s ∧
      s.alloc .idle 0x7EFF8 true = .ok (0xC0081000, s₁) ∧
      Laid s₁ [⟨0xC0080000, 0xFF4, true⟩, ⟨0xC0080FF4, 0x7F00C, false⟩] ∧
      Grows .idle s₁ 0x2000 { s₁.heap with endAddress := s₁.heap.endAddress + (0x2000 + 20) } () := by
  obtain ⟨s, hs, hlaid, -, hheap, hslots⟩ := createHeap_laid 0xC0000000 0xC0100000 0xCFFFF000
    false false (fun _ => 0) () (by decide) (by decide) (by decide) (by decide)
  have hr := alignedRoom_start 0x7EFF8 hlaid hslots (by decide)
  obtain ⟨p, s₁, hplace⟩ : ∃ p s₁, s.place 0x7EFF8 (0x7EFF8 + 20) true 0 = (p, s₁) := ⟨_, _, rfl⟩
  obtain ⟨hp, hw, hlaid₁⟩ := place_aligned (l := []) (r := []) hlaid hr.word (by decide)
    (Or.inl (by decide)) (fun hne => absurd (by decide) hne) hplace
  have hchunks : [] ++ (([⟨0xC0080000, frontSize 0xC0080000, true⟩] ++
      cut (0xC0080000 + frontSize 0xC0080000) (0x7EFF8 + 20) (0x80000 - frontSize 0xC0080000)) ++ [])
      = [(⟨0xC0080000, 0xFF4, true⟩ : Chunk), ⟨0xC0080FF4, 0x7F00C, false⟩] := by decide
  rw [hchunks] at hlaid₁
  have hstart₁ : s₁.heap.startAddress = 0xC0080000 := by rw [hw.start, hheap]
  have hstop₁ : s₁.heap.endAddress = 0xC0100000 := by rw [hw.stop, hheap]
  have hmax₁ : s₁.heap.maxAddress = 0xCFFFF000 := by rw [hw.heap, hheap]
  refine ⟨s, s₁, hs, by rw [hr.alloc_eq .idle hlaid, hplace, hp]; rfl, hlaid₁, ?_⟩
  refine grows_idle hlaid₁ ?_ ?_ ?_ ?_
  · intro c hc hhole
    simp only [List.mem_cons, List.not_mem_nil, or_false] at hc
    rcases hc with rfl | rfl
    · simp
    · exact absurd hhole (by simp)
  · rw [hstart₁, hstop₁]
  · rw [hstop₁, hmax₁]
    decide
  · rw [hstop₁]
    decide

/-- A page that takes all but the front of the heap at the start, and then a block that does not fit
in front of it: the hole there grows over the page. -/
theorem alloc_grow_swallows_block :
    ∃ s s₁ : Kheap Unit,
      Kheap.createHeap 0xC0000000 0xC0100000 0xCFFFF000 false false (fun _ => 0) () = .ok s ∧
      s.alloc .idle 0x7EFF8 true = .ok (0xC0081000, s₁) ∧
      Laid s₁ [⟨0xC0080000, 0xFF4, true⟩, ⟨0xC0080FF4, 0x7F00C, false⟩] ∧
      Grows .idle s₁ 0x2000 { s₁.heap with endAddress := s₁.heap.endAddress + (0x2000 + 20) } () ∧
      ¬ ∃ p s', s₁.alloc .idle 0x2000 false = .ok (p, s') ∧
        GrowsInto s₁ [⟨0xC0080000, 0xFF4, true⟩, ⟨0xC0080FF4, 0x7F00C, false⟩] 0x2000 p s' := by
  obtain ⟨s, s₁, hs, halloc, hlaid₁, hgrows⟩ := page_fills_heap
  refine ⟨s, s₁, hs, halloc, hlaid₁, hgrows, fun hkept => ?_⟩
  obtain ⟨-, hnil | ⟨l, a, n, heq⟩⟩ := hgrows.last_of_growsInto hlaid₁ hkept
  · exact absurd hnil (by decide)
  · have hlast := congrArg List.getLast? heq
    simp at hlast

end Idle

end Matanos
