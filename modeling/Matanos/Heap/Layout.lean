import Matanos.Lib.Tiling
import Matanos.Heap.Kheap

/-!
What the heap looks like in memory while it is intact.

* `Chunk`: a block or a hole; `Chunk.Valid`: its header and footer in memory. Only the footer of a
  hole at the end of the heap may be missing;
* `Indexed`: the index has the holes as entries, in some order;
* `Laid`: the heap is tiled by valid chunks, and the index is theirs;
* `chunkMem`: a chunk written with its header and footer; `valid_chunkMem`: it is then valid;
* `Chunk.Valid.congr`, `Indexed.insert`, `Indexed.remove`: how these are carried over.
-/

namespace Matanos

open Lib

/-- A block or a hole, with the bytes of its header and footer. -/
structure Chunk where
  addr : ℕ
  size : ℕ
  hole : Bool
deriving DecidableEq

/-- The chunks fill the addresses from `a` up to `b`. -/
abbrev Tiled (a : ℕ) (cs : List Chunk) (b : ℕ) : Prop := Tiles Chunk.addr Chunk.size 20 a cs b

/-- The chunk is in memory as its header and footer say, in a heap that ends at `e`. -/
structure Chunk.Valid (c : Chunk) (m : Bytes) (e : ℕ) : Prop where
  magic : read32 m c.addr = heapMagic
  isHole : m (c.addr + 4) = if c.hole then 1 else 0
  size : read32 m (c.addr + 8) = c.size
  footerMagic : c.hole = false ∨ c.addr + c.size ≠ e → read32 m (c.addr + c.size - 8) = heapMagic
  footer : c.hole = false ∨ c.addr + c.size ≠ e → read32 m (c.addr + c.size - 4) = c.addr

/-- The addresses of the holes. -/
def holes (cs : List Chunk) : List ℕ := (cs.filter Chunk.hole).map Chunk.addr

/-- The storage of the index is below the heap, which starts with a page. -/
structure Heap.Placed (h : Heap) : Prop where
  capacity : h.maxSize = heapIndexSize
  index : h.array + 4 * h.maxSize ≤ h.startAddress
  page : h.startAddress % 0x1000 = 0
  top : h.endAddress < 2 ^ 32

/-- The entries of the index are `as`, in some order, and they fit in its storage. -/
structure Indexed (h : Heap) (m : Bytes) (as : List ℕ) : Prop where
  perm : (h.slots m).Perm as
  fits : h.size ≤ h.maxSize

/-- The heap is intact, with the chunks `cs`. -/
structure Laid {π : Type*} (s : Kheap π) (cs : List Chunk) : Prop where
  placed : s.heap.Placed
  tiled : Tiled s.heap.startAddress cs s.heap.endAddress
  valid : ∀ c ∈ cs, c.Valid s.mem s.heap.endAddress
  index : Indexed s.heap s.mem (holes cs)

/-- No two neighbours are holes. -/
def Separated (cs : List Chunk) : Prop := cs.IsChain fun c d => c.hole = true → d.hole = false

/-- The index is sorted by the sizes of the holes. -/
def SortedIndex {π : Type*} (s : Kheap π) : Prop := s.slots.Pairwise (Heap.keyLe s.mem)

/-! ### Headers and footers -/

section Fields

variable {m : Bytes} {a b n x : ℕ} {k : UInt8}

lemma writeHeader_byte (h : x < a ∨ a + 12 ≤ x) : writeHeader m a k n x = m x := by
  rw [writeHeader, write32_byte (by omega), write8_byte (by omega), write32_byte (by omega)]

lemma writeFooter_byte (h : x < a ∨ a + 8 ≤ x) : writeFooter m a b x = m x := by
  rw [writeFooter, write32_byte (by omega), write32_byte (by omega)]

lemma writeHeader_magic : read32 (writeHeader m a k n) a = heapMagic := by
  rw [writeHeader, read32_write32_of_apart (by omega), read32_write8_of_apart (by omega),
    read32_write32 (by decide)]

lemma writeHeader_isHole : writeHeader m a k n (a + 4) = k := by
  rw [writeHeader, write32_byte (by omega), write8_self]

lemma writeHeader_size (hn : n < 2 ^ 32) : read32 (writeHeader m a k n) (a + 8) = n := by
  rw [writeHeader, read32_write32 hn]

lemma writeFooter_magic : read32 (writeFooter m a b) a = heapMagic := by
  rw [writeFooter, read32_write32_of_apart (by omega), read32_write32 (by decide)]

lemma writeFooter_header (hb : b < 2 ^ 32) : read32 (writeFooter m a b) (a + 4) = b := by
  rw [writeFooter, read32_write32 hb]

lemma writeFooter_read (h : x + 4 ≤ a ∨ a + 8 ≤ x) :
    read32 (writeFooter m a b) x = read32 m x :=
  read32_congr fun _ _ _ => writeFooter_byte (by omega)

/-- Memory with the header and the footer of a chunk. -/
def chunkMem (m : Bytes) (c : Chunk) : Bytes :=
  writeFooter (writeHeader m c.addr (if c.hole then 1 else 0) c.size) (c.addr + c.size - 8) c.addr

variable {c : Chunk} {e : ℕ}

lemma chunkMem_byte (hn : 20 ≤ c.size) (h : x < c.addr ∨ c.addr + c.size ≤ x) :
    chunkMem m c x = m x := by
  rw [chunkMem, writeFooter_byte (by omega), writeHeader_byte (by omega)]

lemma valid_chunkMem (hn : 20 ≤ c.size) (htop : c.addr + c.size < 2 ^ 32) :
    c.Valid (chunkMem m c) e := by
  have hfoot : c.addr + c.size - 4 = c.addr + c.size - 8 + 4 := by omega
  refine ⟨?_, ?_, ?_, fun _ => writeFooter_magic, fun _ => ?_⟩
  · rw [chunkMem, writeFooter_read (by omega), writeHeader_magic]
  · rw [chunkMem, writeFooter_byte (by omega), writeHeader_isHole]
  · rw [chunkMem, writeFooter_read (by omega), writeHeader_size (by omega)]
  · rw [chunkMem, hfoot, writeFooter_header (by omega)]

end Fields

/-! ### Chunks under a change of memory -/

section Frame

variable {m m' : Bytes} {a b e e' : ℕ} {c : Chunk} {cs ds : List Chunk}

lemma Chunk.Valid.congr (h : c.Valid m e) (hn : 20 ≤ c.size)
    (hm : AgreeOn m m' c.addr (c.addr + c.size))
    (he : c.addr + c.size ≠ e' → c.addr + c.size ≠ e) : c.Valid m' e' where
  magic := by rw [hm.read32 (by omega) (by omega)]; exact h.magic
  isHole := by rw [hm _ (by omega) (by omega)]; exact h.isHole
  size := by rw [hm.read32 (by omega) (by omega)]; exact h.size
  footerMagic hf := by
    rw [hm.read32 (by omega) (by omega)]
    exact h.footerMagic (hf.imp_right he)
  footer hf := by
    rw [hm.read32 (by omega) (by omega)]
    exact h.footer (hf.imp_right he)

/-- Chunks whose bytes are kept stay valid. -/
lemma Tiled.valid_congr (ht : Tiled a cs b) (hv : ∀ c ∈ cs, c.Valid m e) (hm : AgreeOn m m' a b) :
    ∀ c ∈ cs, c.Valid m' e := by
  intro c hc
  obtain ⟨h1, h2, h3⟩ := ht.bounds hc
  exact (hv c hc).congr h3 (hm.mono h1 h2) id

@[simp] lemma holes_nil : holes [] = [] := rfl

@[simp] lemma holes_cons_hole {n : ℕ} : holes (⟨a, n, true⟩ :: cs) = a :: holes cs := rfl

@[simp] lemma holes_cons_block {n : ℕ} : holes (⟨a, n, false⟩ :: cs) = holes cs := rfl

@[simp] lemma holes_append : holes (cs ++ ds) = holes cs ++ holes ds := by
  rw [holes, List.filter_append, List.map_append]
  rfl

lemma mem_holes : a ∈ holes cs ↔ ∃ c ∈ cs, c.hole = true ∧ c.addr = a := by
  simp [holes, and_assoc]

end Frame

/-! ### The index -/

section Index

variable {h : Heap} {m m' : Bytes} {as bs : List ℕ} {i item : ℕ}

lemma Indexed.of_perm (hx : Indexed h m as) (hp : as.Perm bs) : Indexed h m bs :=
  ⟨hx.perm.trans hp, hx.fits⟩

/-- The index depends on the bytes of the array only. -/
lemma Indexed.congr (hx : Indexed h m as)
    (hm : AgreeOn m m' h.array (h.array + 4 * h.maxSize)) : Indexed h m' as := by
  have hfits := hx.fits
  refine ⟨?_, hfits⟩
  rw [Heap.slots_congr (hm.mono le_rfl (by omega))]
  exact hx.perm

lemma Indexed.insert (hx : Indexed h m as) (item : ℕ) (hlt : item < 2 ^ 32) (hroom : h.size < h.maxSize) :
    Indexed (h.insertOrderedArray m item).1 (h.insertOrderedArray m item).2 (item :: as) := by
  refine ⟨?_, hroom⟩
  rw [Heap.slots_insert hlt]
  exact (List.perm_orderedInsert _ _ _).trans (hx.perm.cons item)

lemma Indexed.remove (hx : Indexed h m as) (hi : i < h.size) (hp : as.Perm (h.word m i :: bs)) :
    Indexed (h.removeOrderedArray m i).1 (h.removeOrderedArray m i).2 bs := by
  have hfits := hx.fits
  refine ⟨?_, ?_⟩
  · rw [Heap.slots_remove hi]
    have hcons : (h.word m i :: (h.slots m).eraseIdx i).Perm (h.slots m) := by
      rw [← Heap.getElem_slots (by rwa [Heap.length_slots])]
      exact List.getElem_cons_eraseIdx_perm _
    exact (hcons.trans (hx.perm.trans hp)).cons_inv
  · change h.size - 1 ≤ h.maxSize
    omega

end Index

end Matanos
