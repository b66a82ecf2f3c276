import Matanos.Lib.Word
import Matanos.Paging.Bitmap

/-!
Page tables and directories in memory, and the functions of `cpu/paging.c` and `cpu/kheap.c`
that work on them before the heap exists.

Memory is modelled by words: the tables and directories are page aligned and made of 32-bit
words, and every access of these functions is to one of them. The bitset is kept apart from
memory, it lies in front of every table.

* `Page.toWord`, `Page.ofWord`: the word of a page entry;
* `Paging`: the words, the bitset and the globals; `kmallocInt`: the placement branch of
  `kmalloc_int`;
* `getPagePtr`: `get_page_ptr_in_page_table`; `allocFrameAt`, `freeFrameAt`: `alloc_frame` and
  `free_frame` on the entry a pointer names;
* `translate`, `Paging.store`: how the processor finds the word of a virtual address.
-/

namespace Matanos

/-! ### Page entries as words -/

namespace Page

/-- The word in which the compiler lays out the bit field. -/
def toWord (p : Page) : ℕ :=
  p.present.toNat + 2 * p.rw.toNat + 4 * p.user.toNat + 8 * p.accessed.toNat
    + 16 * p.dirty.toNat + 32 * p.unused.val + 0x1000 * p.frame.val

/-- The bit field that a word holds. -/
def ofWord (w : ℕ) : Page where
  present := w % 2 == 1
  rw := w / 2 % 2 == 1
  user := w / 4 % 2 == 1
  accessed := w / 8 % 2 == 1
  dirty := w / 16 % 2 == 1
  unused := Fin.ofNat 128 (w / 32)
  frame := Fin.ofNat (2 ^ 20) (w / 0x1000)

/-- **An entry is read back as it was written.** -/
@[simp] lemma ofWord_toWord (p : Page) : ofWord p.toWord = p := by
  obtain ⟨a, b, c, d, e, u, f⟩ := p
  have hu := u.isLt
  have hf := f.isLt
  have ha := Bool.toNat_lt a
  have hb := Bool.toNat_lt b
  have hc := Bool.toNat_lt c
  have hd := Bool.toNat_lt d
  have he := Bool.toNat_lt e
  have hbit : ∀ (x : Bool) (n : ℕ), n = x.toNat → (n == 1) = x := by
    rintro x n rfl
    cases x <;> rfl
  simp only [ofWord, toWord, Page.mk.injEq]
  refine ⟨hbit a _ (by omega), hbit b _ (by omega), hbit c _ (by omega), hbit d _ (by omega),
    hbit e _ (by omega), Fin.ext ?_, Fin.ext ?_⟩
  · simp only [Fin.ofNat]
    omega
  · simp only [Fin.ofNat]
    omega

@[simp] lemma ofWord_zero : ofWord 0 = zero := by decide

end Page

/-! ### The structures in memory -/

/-- `sizeof(page_table_t)`. -/
def pageTableSize : ℕ := 0x1000

/-- `sizeof(page_directory_t)`. -/
def pageDirectorySize : ℕ := 0x2004

/-- The address of `dir->tables[i]`. -/
def tablesAddr (dir i : ℕ) : ℕ := dir + 4 * i

/-- The address of `dir->tablesPhysical[i]`. -/
def tablesPhysicalAddr (dir i : ℕ) : ℕ := dir + 0x1000 + 4 * i

/-- The address of `dir->physicalAddr`. -/
def physicalAddrAddr (dir : ℕ) : ℕ := dir + 0x2000

/-- `memset(a, 0, len)`. -/
def memsetZero (mem : ℕ → ℕ) (a len : ℕ) : ℕ → ℕ := fun x =>
  if a ≤ x ∧ x < a + len then 0 else mem x

/-- Memory by words, the bitset of frames, and the globals `placement_address` and
`kernel_directory`. -/
structure Paging where
  mem : ℕ → ℕ
  frames : Frames
  placement : ℕ
  kernelDirectory : ℕ

namespace Paging

/-- The assignment of a word. -/
def write (s : Paging) (a v : ℕ) : Paging := { s with mem := Function.update s.mem a v }

/-- `kmalloc_int` while there is no heap, with the address it returns. -/
def kmallocInt (s : Paging) (sz : ℕ) (align : Bool) : ℕ × Paging :=
  let placement :=
    if align = true ∧ s.placement &&& 0xFFFFF000 ≠ 0 then
      ((s.placement &&& 0xFFFFF000) + 0x1000) % 2 ^ 32
    else s.placement
  (placement, { s with placement := (placement + sz) % 2 ^ 32 })

/-- `get_page_ptr_in_page_table`, before the heap exists; the null pointer is 0. -/
def getPagePtr (s : Paging) (address : ℕ) (make : Bool) (dir : ℕ) : ℕ × Paging :=
  let address := address / 0x1000
  let tableIdx := address / 1024
  if s.mem (tablesAddr dir tableIdx) ≠ 0 then
    (s.mem (tablesAddr dir tableIdx) + 4 * (address % 1024), s)
  else if make then
    let (tmp, s) := s.kmallocInt pageTableSize true
    let s := s.write (tablesAddr dir tableIdx) tmp
    let s := s.write (tablesPhysicalAddr dir tableIdx) (tmp ||| 0x7)
    (tmp + 4 * (address % 1024), s)
  else (0, s)

/-- Put back what a call on the bitset and an entry left. -/
def putPage (s : Paging) (ptr : ℕ) (r : Frames × Page) : Paging :=
  { s.write ptr r.2.toWord with frames := r.1 }

/-- `alloc_frame` on the entry at `ptr`. -/
def allocFrameAt (s : Paging) (ptr : ℕ) (isKernel isWriteable : Bool) : Option Paging :=
  (allocFrame s.frames (Page.ofWord (s.mem ptr)) isKernel isWriteable).map (s.putPage ptr)

/-- `free_frame` on the entry at `ptr`. -/
def freeFrameAt (s : Paging) (ptr : ℕ) : Paging :=
  s.putPage ptr (freeFrame s.frames (Page.ofWord (s.mem ptr)))

end Paging

/-! ### What the processor does with the tables -/

/-- The physical address of a virtual one, by the directory whose `tablesPhysical` is at `cr3`;
`none` is a page fault. -/
def translate (mem : ℕ → ℕ) (cr3 v : ℕ) : Option ℕ :=
  let pde := mem (cr3 + 4 * (v / 0x400000))
  let pte := Page.ofWord (mem (pde / 0x1000 * 0x1000 + 4 * (v / 0x1000 % 1024)))
  if pde % 2 = 1 ∧ pte.present = true then some (pte.frame * 0x1000 + v % 0x1000) else none

namespace Paging

/-- A write to the virtual address `v` with paging on. -/
def store (s : Paging) (cr3 v w : ℕ) : Option Paging :=
  (translate s.mem cr3 v).map fun a => s.write a w

/-- A write of a byte to the virtual address `v`, the lowest of its word. -/
def storeByte (s : Paging) (cr3 v b : ℕ) : Option Paging :=
  (translate s.mem cr3 v).map fun a => s.write a (s.mem a / 256 * 256 + b)

/-! ### What the assignments change -/

variable (s : Paging) (a v : ℕ)

@[simp] lemma mem_write : (s.write a v).mem = Function.update s.mem a v := rfl

@[simp] lemma frames_write : (s.write a v).frames = s.frames := rfl

@[simp] lemma placement_write : (s.write a v).placement = s.placement := rfl

@[simp] lemma kernelDirectory_write : (s.write a v).kernelDirectory = s.kernelDirectory := rfl

variable {s}

/-- The placement branch with alignment goes to the next page. -/
lemma kmallocInt_align {sz : ℕ} (hlo : 0x1000 ≤ s.placement)
    (hhi : s.placement + 0x1000 + sz < 2 ^ 32) :
    s.kmallocInt sz true = (s.placement / 0x1000 * 0x1000 + 0x1000,
      { s with placement := s.placement / 0x1000 * 0x1000 + 0x1000 + sz }) := by
  have hmask : s.placement &&& 0xFFFFF000 = s.placement / 0x1000 * 0x1000 :=
    Lib.and_highMask (n := s.placement) (m := 20) (k := 12) (by omega)
  simp only [kmallocInt, hmask, true_and]
  rw [if_pos (by omega), Nat.mod_eq_of_lt (by omega), Nat.mod_eq_of_lt (by omega)]

/-- The placement branch without alignment. -/
lemma kmallocInt_noAlign {sz : ℕ} (hhi : s.placement + sz < 2 ^ 32) :
    s.kmallocInt sz false = (s.placement, { s with placement := s.placement + sz }) := by
  simp only [kmallocInt, Bool.false_eq_true, false_and, if_false]
  rw [Nat.mod_eq_of_lt hhi]

/-- A page whose table exists. -/
lemma getPagePtr_of_table {address dir : ℕ} (make : Bool)
    (h : s.mem (tablesAddr dir (address / 0x1000 / 1024)) ≠ 0) :
    s.getPagePtr address make dir = (s.mem (tablesAddr dir (address / 0x1000 / 1024))
      + 4 * (address / 0x1000 % 1024), s) := by
  simp only [getPagePtr]
  rw [if_pos h]

/-- A page whose table does not exist and may not be made. -/
lemma getPagePtr_null {address dir : ℕ}
    (h : s.mem (tablesAddr dir (address / 0x1000 / 1024)) = 0) :
    s.getPagePtr address false dir = (0, s) := by
  simp only [getPagePtr]
  rw [if_neg (not_not.mpr h)]
  rfl

/-- A page whose table is made. -/
lemma getPagePtr_make {address dir : ℕ}
    (h : s.mem (tablesAddr dir (address / 0x1000 / 1024)) = 0) (hlo : 0x1000 ≤ s.placement)
    (hhi : s.placement + 0x2000 < 2 ^ 32) :
    s.getPagePtr address true dir =
      (s.placement / 0x1000 * 0x1000 + 0x1000 + 4 * (address / 0x1000 % 1024),
        ({ s with placement := s.placement / 0x1000 * 0x1000 + 0x2000 }.write
          (tablesAddr dir (address / 0x1000 / 1024))
          (s.placement / 0x1000 * 0x1000 + 0x1000)).write
          (tablesPhysicalAddr dir (address / 0x1000 / 1024))
          (s.placement / 0x1000 * 0x1000 + 0x1000 + 7)) := by
  have hor : s.placement / 0x1000 * 0x1000 + 0x1000 ||| 0x7
      = s.placement / 0x1000 * 0x1000 + 0x1000 + 7 :=
    Lib.or_lowBits (k := 3) (by omega) (by norm_num)
  simp only [getPagePtr]
  rw [if_neg (not_not.mpr h), if_pos trivial,
    kmallocInt_align hlo (by simp only [pageTableSize]; omega)]
  simp only [pageTableSize, hor, add_assoc, Nat.reduceAdd]

/-- `alloc_frame` on a null entry. -/
lemma allocFrameAt_zero {ptr f : ℕ} (h0 : s.mem ptr = 0) (hf : s.frames.firstFrame = some f)
    (k w : Bool) :
    s.allocFrameAt ptr k w = some { s.write ptr (Page.toWord
      { Page.zero with present := true, rw := w, user := !k, frame := Fin.ofNat (2 ^ 20) f })
      with frames := s.frames.setFrame (f * 0x1000) } := by
  rw [allocFrameAt, h0, Page.ofWord_zero, allocFrame_eq rfl hf, Option.map_some]
  rfl

end Paging

end Matanos
