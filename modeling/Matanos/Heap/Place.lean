import Matanos.Heap.Layout

/-!
`alloc` once a hole is found: `place` cuts the hole into the block and what is left of it.

* `Within`: a change of the index, and of the bytes from `a` up to `b`;
* `Laid.replace`: chunks in place of one chunk, by a change within it;
* `writeChunks`: memory with the headers and footers of some chunks; `Laid.rewrite`: they are
  written over a chunk;
* `cut`: a block and the hole behind it; `cut_eq`: `writeBlock` and `writeRear` make them;
  `Laid.carve`: the heap stays intact.
-/

namespace Matanos

open Lib

variable {π : Type*}

/-- The two heaps differ in the index and in the bytes from `a` up to `b` only. -/
structure Within (s s' : Kheap π) (a b : ℕ) : Prop where
  heap : s'.heap = { s.heap with size := s'.heap.size }
  bytes : ∀ x, x < s.heap.array ∨ s.heap.array + 4 * s.heap.maxSize ≤ x → x < a ∨ b ≤ x →
    s'.mem x = s.mem x

section Within

variable {s s' s'' : Kheap π} {a b : ℕ}

lemma Within.refl (s : Kheap π) (a b : ℕ) : Within s s a b := ⟨rfl, fun _ _ _ => rfl⟩

lemma Within.start (h : Within s s' a b) : s'.heap.startAddress = s.heap.startAddress := by
  rw [h.heap]

lemma Within.stop (h : Within s s' a b) : s'.heap.endAddress = s.heap.endAddress := by
  rw [h.heap]

lemma Within.array (h : Within s s' a b) : s'.heap.array = s.heap.array := by
  rw [h.heap]

lemma Within.capacity (h : Within s s' a b) : s'.heap.maxSize = s.heap.maxSize := by
  rw [h.heap]

lemma Within.placed (h : Within s s' a b) (hp : s.heap.Placed) : s'.heap.Placed := by
  rw [h.heap]
  exact ⟨hp.capacity, hp.index, hp.page, hp.top⟩

lemma Within.trans {a' b' : ℕ} (h : Within s s' a b) (h' : Within s' s'' a' b')
    (ha : a ≤ a') (hb : b' ≤ b) : Within s s'' a b := by
  refine ⟨by rw [h'.heap, h.heap], fun x hx hout => ?_⟩
  rw [h'.bytes x (by rw [h.array, h.capacity]; exact hx) (by omega)]
  exact h.bytes x hx hout

lemma Within.mono {c d : ℕ} (h : Within s s' a b) (ha : c ≤ a) (hb : b ≤ d) :
    Within s s' c d :=
  ⟨h.heap, fun x hx hout => h.bytes x hx (by omega)⟩

/-- The bytes of the heap that are not in the range. -/
lemma Within.agree {lo hi : ℕ} (h : Within s s' a b) (hp : s.heap.Placed)
    (hlo : s.heap.startAddress ≤ lo) (hout : hi ≤ a ∨ b ≤ lo) : AgreeOn s.mem s'.mem lo hi := by
  intro x hx hx'
  have := hp.index
  exact h.bytes x (by omega) (by omega)

/-- A change of memory only. -/
lemma within_mem {m : Bytes} (h : ∀ x, x < a ∨ b ≤ x → m x = s.mem x) :
    Within s { s with mem := m } a b :=
  ⟨rfl, fun x _ => h x⟩

lemma within_insert (hroom : s.heap.size < s.heap.maxSize) (item : ℕ) :
    Within s (s.insert item) a a :=
  ⟨rfl, fun x hx _ => Heap.insert_byte (by omega)⟩

lemma within_remove (hfits : s.heap.size ≤ s.heap.maxSize) {i : ℕ} (hi : i < s.heap.size) :
    Within s (s.remove i) a a :=
  ⟨rfl, fun x hx _ => Heap.remove_byte hi (by omega)⟩

end Within

/-! ### Chunks in place of a chunk -/

section Replace

variable {s s' : Kheap π} {l r cs : List Chunk} {c : Chunk}

/-- A tiling around one of its chunks. -/
lemma Tiled.around {a b : ℕ} (h : Tiled a (l ++ c :: r) b) :
    Tiled a l c.addr ∧ 20 ≤ c.size ∧ Tiled (c.addr + c.size) r b ∧ a ≤ c.addr ∧
      c.addr + c.size ≤ b := by
  obtain ⟨x, h1, rfl, h2, h3⟩ := tiles_append.mp h
  exact ⟨h1, h2, h3, h1.le, h3.le⟩

/-- What is known around a chunk. -/
lemma Laid.around (h : Laid s (l ++ c :: r)) :
    Tiled s.heap.startAddress l c.addr ∧ 20 ≤ c.size ∧
      Tiled (c.addr + c.size) r s.heap.endAddress ∧ s.heap.startAddress ≤ c.addr ∧
      c.addr + c.size ≤ s.heap.endAddress ∧ c.Valid s.mem s.heap.endAddress := by
  obtain ⟨hl, hn, hr, hlo, hhi⟩ := h.tiled.around
  exact ⟨hl, hn, hr, hlo, hhi, h.valid c (by simp)⟩

/-- The chunks around a change stay valid. -/
lemma Within.valid_around {a b : ℕ} (hw : Within s s' a b) (hp : s.heap.Placed)
    (hl : Tiled s.heap.startAddress l a) (hab : a ≤ b) (hr : Tiled b r s.heap.endAddress)
    (hkeep : ∀ d ∈ l ++ r, d.Valid s.mem s.heap.endAddress)
    (hv : ∀ d ∈ cs, d.Valid s'.mem s.heap.endAddress) :
    ∀ d ∈ l ++ (cs ++ r), d.Valid s'.mem s.heap.endAddress := by
  have hlo := hl.le
  intro d hd
  simp only [List.mem_append] at hd
  rcases hd with hd | hd | hd
  · exact hl.valid_congr (fun d hd => hkeep d (List.mem_append_left _ hd))
      (hw.agree hp le_rfl (Or.inl le_rfl)) d hd
  · exact hv d hd
  · exact hr.valid_congr (fun d hd => hkeep d (List.mem_append_right _ hd))
      (hw.agree hp (hlo.trans hab) (Or.inr le_rfl)) d hd

/-- **A change within one chunk that leaves valid chunks there leaves the heap intact.** -/
lemma Laid.replace (h : Laid s (l ++ c :: r)) (hw : Within s s' c.addr (c.addr + c.size))
    (ht : Tiled c.addr cs (c.addr + c.size))
    (hv : ∀ d ∈ cs, d.Valid s'.mem s.heap.endAddress)
    (hx : Indexed s'.heap s'.mem (holes (l ++ (cs ++ r)))) : Laid s' (l ++ (cs ++ r)) := by
  obtain ⟨hl, hn, hr, hlo, hhi, _⟩ := h.around
  have hkeep : ∀ d ∈ l ++ r, d.Valid s.mem s.heap.endAddress := fun d hd =>
    h.valid d (List.mem_append.mpr ((List.mem_append.mp hd).imp_right (List.mem_cons_of_mem c)))
  refine ⟨hw.placed h.placed, ?_, ?_, hx⟩
  · rw [hw.start, hw.stop]
    exact tiles_append.mpr ⟨_, hl, tiles_append.mpr ⟨_, ht, hr⟩⟩
  · rw [hw.stop]
    exact hw.valid_around h.placed hl ht.le hr hkeep hv

/-- An entry of the index is a hole. -/
lemma Laid.hole_of_slot (h : Laid s cs) {i : ℕ} (hi : i < s.heap.size) :
    ∃ l n r, cs = l ++ ⟨s.heap.word s.mem i, n, true⟩ :: r := by
  have hmem : s.heap.word s.mem i ∈ holes cs := h.index.perm.mem_iff.mp (Heap.word_mem_slots hi)
  obtain ⟨⟨a, n, k⟩, hc, hhole, haddr⟩ := mem_holes.mp hmem
  obtain ⟨l, r, rfl⟩ := List.append_of_mem hc
  simp only at hhole haddr
  subst hhole haddr
  exact ⟨l, n, r, rfl⟩

end Replace

/-! ### Chunks that are written -/

/-- Memory with the headers and footers of some chunks. -/
def writeChunks (m : Bytes) (cs : List Chunk) : Bytes := cs.foldl chunkMem m

section Write

variable {m : Bytes} {a b e x : ℕ} {cs : List Chunk}

lemma writeChunks_byte (ht : Tiled a cs b) (hx : x < a ∨ b ≤ x) : writeChunks m cs x = m x := by
  induction cs generalizing a m with
  | nil => rfl
  | cons c cs ih =>
      obtain ⟨rfl, hn, hrest⟩ := ht
      have hle := hrest.le
      calc writeChunks (chunkMem m c) cs x = chunkMem m c x := ih hrest (by omega)
        _ = m x := chunkMem_byte hn (by omega)

lemma valid_writeChunks (ht : Tiled a cs b) (htop : b < 2 ^ 32) :
    ∀ c ∈ cs, c.Valid (writeChunks m cs) e := by
  induction cs generalizing a m with
  | nil => simp
  | cons c cs ih =>
      obtain ⟨rfl, hn, hrest⟩ := ht
      have hle := hrest.le
      intro d hd
      rcases List.mem_cons.mp hd with rfl | hd
      · have hvalid : d.Valid (chunkMem m d) e := valid_chunkMem hn (by omega)
        exact hvalid.congr hn (fun x _ hx => writeChunks_byte hrest (Or.inl hx)) id
      · exact ih hrest d hd

end Write

/-- A client writes in the payload of its block. -/
lemma Laid.payload {s : Kheap π} {l r : List Chunk} {a n : ℕ} {m : Bytes}
    (h : Laid s (l ++ ⟨a, n, false⟩ :: r)) (hm : ∀ x, x < a + 12 ∨ a + n - 8 ≤ x → m x = s.mem x) :
    Laid { s with mem := m } (l ++ ⟨a, n, false⟩ :: r) := by
  obtain ⟨-, hn, -, hlo, -, hv⟩ := h.around
  have hindex := h.placed.index
  have hfits := h.index.fits
  simp only at hn hlo
  refine ⟨h.placed, h.tiled, fun c hc => ?_, h.index.congr fun x _ hx => hm x (by omega)⟩
  have hvalid := h.valid c hc
  have hbounds := h.tiled.bounds hc
  rcases h.tiled.apart hc (by simp : (⟨a, n, false⟩ : Chunk) ∈ _) with rfl | hbelow | habove
  · refine ⟨?_, ?_, ?_, fun hf => ?_, fun hf => ?_⟩
    · rw [read32_congr fun x _ _ => hm x (by simp only at *; omega)]
      exact hv.magic
    · exact (hm _ (by simp only; omega)).trans hv.isHole
    · rw [read32_congr fun x _ _ => hm x (by simp only at *; omega)]
      exact hv.size
    · rw [read32_congr fun x _ _ => hm x (by simp only at *; omega)]
      exact hv.footerMagic hf
    · rw [read32_congr fun x _ _ => hm x (by simp only at *; omega)]
      exact hv.footer hf
  · simp only at hbelow
    exact hvalid.congr hbounds.2.2 (fun x _ hx => hm x (by omega)) id
  · simp only at habove
    exact hvalid.congr hbounds.2.2 (fun x hx _ => hm x (by omega)) id

section Rewrite

variable {s s₀ : Kheap π} {l r cs : List Chunk} {c : Chunk} {as : List ℕ}

/-- Memory outside the array keeps the index. -/
lemma Indexed.of_mem {m : Bytes} (hx : Indexed s.heap s.mem as) (hp : s.heap.Placed)
    (hm : ∀ x < s.heap.startAddress, m x = s.mem x) : Indexed s.heap m as := by
  have := hp.index
  exact hx.congr fun x _ hlt => hm x (by omega)

/-- Chunks are written over a chunk. -/
lemma Laid.rewrite (h : Laid s (l ++ c :: r)) (hw : Within s s₀ c.addr c.addr)
    (hx : Indexed s₀.heap s₀.mem as) (ht : Tiled c.addr cs (c.addr + c.size)) :
    Within s { s₀ with mem := writeChunks s₀.mem cs } c.addr (c.addr + c.size) ∧
      (∀ d ∈ cs, d.Valid (writeChunks s₀.mem cs) s.heap.endAddress) ∧
      Indexed s₀.heap (writeChunks s₀.mem cs) as := by
  obtain ⟨-, hn, -, hlo, hhi, -⟩ := h.around
  have htop := h.placed.top
  refine ⟨?_, valid_writeChunks ht (by omega), ?_⟩
  · have hmem : Within s₀ { s₀ with mem := writeChunks s₀.mem cs } c.addr (c.addr + c.size) :=
      within_mem fun x hout => writeChunks_byte ht hout
    exact (hw.mono le_rfl (Nat.le_add_right _ _)).trans hmem le_rfl le_rfl
  · refine hx.of_mem (hw.placed h.placed) fun x hx => ?_
    rw [hw.start] at hx
    exact writeChunks_byte ht (by omega)

end Rewrite

/-! ### The block and the hole behind it -/

/-- A block of `ns` bytes cut from the `k` bytes at `q`. -/
def cut (q ns k : ℕ) : List Chunk :=
  ⟨q, ns, false⟩ :: if ns = k then [] else [⟨q + ns, k - ns, true⟩]

section Cut

variable {s : Kheap π} {q size ns k : ℕ} {as : List ℕ}

lemma cut_tiled (hns : 20 ≤ ns) (hk : ns = k ∨ ns + 20 ≤ k) : Tiled q (cut q ns k) (q + k) := by
  rw [cut]
  split_ifs with h
  · exact ⟨rfl, hns, congrArg (q + ·) h⟩
  · have hrest : 20 ≤ k - ns := by omega
    have hstop : q + ns + (k - ns) = q + k := by omega
    exact ⟨rfl, hns, rfl, hrest, hstop⟩

/-- `writeBlock` as a change of memory. -/
lemma writeBlock_eq (hns : size + 20 = ns) (htop : q + ns < 2 ^ 32) :
    s.writeBlock q size ns = { s with mem := chunkMem s.mem ⟨q, ns, false⟩ } := by
  have hfoot : add32 (add32 q 12) size = q + ns - 8 := by
    simp only [add32]
    omega
  rw [Kheap.writeBlock, hfoot]
  rfl

/-- `writeRear` as a hole and an insertion. -/
lemma writeRear_eq (hns : size + 20 = ns) (hk : ns + 20 ≤ k) (htop : q + k < 2 ^ 32)
    (hend : q + k ≤ s.heap.endAddress) :
    s.writeRear q size k ns =
      Kheap.insert { s with mem := chunkMem s.mem ⟨q + ns, k - ns, true⟩ } (q + ns) := by
  have hrest : sub32 k ns = k - ns := sub32_of_le (by omega) (by omega)
  have hhead : add32 (add32 (add32 q 12) size) 8 = q + ns := by
    simp only [add32]
    omega
  have hfoot : sub32 (sub32 (add32 (q + ns) k) ns) 8 = q + ns + (k - ns) - 8 := by
    simp only [sub32, add32]
    omega
  rw [Kheap.writeRear, if_pos (by omega)]
  simp only [hrest, hhead, hfoot]
  rw [if_pos (by omega)]
  rfl

/-- No hole is written when nothing is left. -/
lemma writeRear_self (htop : ns < 2 ^ 32) : s.writeRear q size ns ns = s := by
  have hnone : sub32 ns ns = 0 := by
    rw [sub32_of_le le_rfl htop, Nat.sub_self]
  rw [Kheap.writeRear, hnone, if_neg (lt_irrefl 0)]

/-- **`writeBlock` and `writeRear`** write the block and the hole behind it, and put the hole in
the index. -/
lemma cut_eq (hns : size + 20 = ns) (hk : ns = k ∨ ns + 20 ≤ k) (htop : q + k < 2 ^ 32)
    (hend : q + k ≤ s.heap.endAddress) :
    (s.writeBlock q size ns).writeRear q size k ns =
      if ns = k then { s with mem := writeChunks s.mem (cut q ns k) }
      else Kheap.insert { s with mem := writeChunks s.mem (cut q ns k) } (q + ns) := by
  rw [writeBlock_eq hns (by omega)]
  split_ifs with hall
  · rw [← hall, writeRear_self (by omega), cut, if_pos rfl]
    rfl
  · rw [writeRear_eq hns (by omega) htop (by exact hend), cut, if_neg hall]
    rfl

end Cut

section Carve

variable {s s₀ : Kheap π} {l r front : List Chunk} {pos n q size ns k : ℕ} {as : List ℕ}

/-- Chunks below the storage of the index are kept when the index changes. -/
lemma Within.valid {a b e : ℕ} {c : Chunk} {s' : Kheap π} (hw : Within s s' a b)
    (hp : s.heap.Placed) (hc : c.Valid s.mem e) (hn : 20 ≤ c.size)
    (hlo : s.heap.startAddress ≤ c.addr) (hout : c.addr + c.size ≤ a ∨ b ≤ c.addr) :
    c.Valid s'.mem e :=
  hc.congr hn (hw.agree hp hlo hout) id

/-- **A hole is carved up**: some chunks in front, then the block and what is left. -/
lemma Laid.carve (h : Laid s (l ++ ⟨pos, n, true⟩ :: r)) (hw : Within s s₀ pos pos)
    (hx : Indexed s₀.heap s₀.mem as) (hfront : Tiled pos front q) (hns : size + 20 = ns)
    (hk : ns = k ∨ ns + 20 ≤ k) (hq : q + k = pos + n)
    (hroom : ns ≠ k → s₀.heap.size < s₀.heap.maxSize)
    (hperm : (holes (cut q ns k) ++ as).Perm (holes (l ++ ((front ++ cut q ns k) ++ r))))
    {s' : Kheap π} (hs' : s' = (Kheap.writeBlock q size ns
      { s₀ with mem := writeChunks s₀.mem front }).writeRear q size k ns) :
    Within s s' pos (pos + n) ∧ Laid s' (l ++ ((front ++ cut q ns k) ++ r)) := by
  obtain ⟨-, hn, -, hlo, hhi, -⟩ := h.around
  simp only at hn hlo hhi
  have htop := h.placed.top
  have hfle := hfront.le
  have htiled : Tiled pos (front ++ cut q ns k) (pos + n) := by
    rw [← hq]
    exact tiles_append.mpr ⟨q, hfront, cut_tiled (by omega) hk⟩
  have happend : writeChunks (writeChunks s₀.mem front) (cut q ns k)
      = writeChunks s₀.mem (front ++ cut q ns k) := (List.foldl_append ..).symm
  obtain ⟨hw₁, hv₁, hx₁⟩ := h.rewrite hw hx htiled
  rw [cut_eq hns hk (by omega) (by rw [hw.stop]; omega)] at hs'
  simp only [happend] at hs'
  obtain ⟨s₁, hs₁⟩ : ∃ s₁ : Kheap π, s₁ =
    { s₀ with mem := writeChunks s₀.mem (front ++ cut q ns k) } := ⟨_, rfl⟩
  rw [← hs₁] at hs' hw₁
  replace hw₁ : Within s s₁ pos (pos + n) := hw₁
  have hmem₁ : s₁.mem = writeChunks s₀.mem (front ++ cut q ns k) := by rw [hs₁]
  have hheap₁ : s₁.heap = s₀.heap := by rw [hs₁]
  rw [← hmem₁] at hv₁ hx₁
  rw [← hheap₁] at hx₁ hroom
  by_cases hall : ns = k
  · rw [if_pos hall] at hs'
    subst hs'
    refine ⟨hw₁, h.replace hw₁ htiled hv₁ (hx₁.of_perm ?_)⟩
    rw [cut, if_pos hall] at hperm ⊢
    exact hperm
  · rw [if_neg hall] at hs'
    have hw₂ : Within s₁ s' (pos + n) (pos + n) := by
      rw [hs']
      exact within_insert (hroom hall) _
    have hwall : Within s s' pos (pos + n) := hw₁.trans hw₂ (by omega) le_rfl
    refine ⟨hwall, h.replace hwall htiled (fun d hd => ?_) ?_⟩
    · obtain ⟨h1, h2, h3⟩ := htiled.bounds hd
      refine hw₂.valid (hw₁.placed h.placed) (hv₁ d hd) h3 ?_ (Or.inl h2)
      rw [hw₁.start]
      omega
    · rw [hs']
      refine (hx₁.insert _ (by omega) (hroom hall)).of_perm ?_
      rw [cut, if_neg hall] at hperm ⊢
      exact hperm

end Carve

end Matanos
