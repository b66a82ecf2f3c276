import Matanos.Paging.Tables

/-!
`initialise_paging` up to the assignment of `kheap`.

* `makeDirectory`, `makeHeapTables`, `identityMap`, `allocHeapPages`, `createHeap`: the parts of
  `initialise_paging` in their order;
* `Booted D i j`: memory, bitset and placement address once `i` pages are identity mapped and
  `j` pages of the heap have frames. The tables made by the loop stand two pages apart behind
  the directory `D`, so the number of tables decides the placement address;
* `booted_identity`, `booted_heap`: one turn of the loops keeps it;
* `identityLoop_booted`: the loop ends, after `identityPages` turns, although each table it makes
  moves its bound;
* `boot_identity_mapping`: when `kheap` is assigned every page below the placement address is
  mapped to the frame of its number.
-/

namespace Matanos

/-- `KHEAP_START`. -/
def kheapStart : ℕ := 0xC0000000

/-- `KHEAP_INITIAL_SIZE`. -/
def kheapInitialSize : ℕ := 0x100000

/-- `HEAP_INDEX_SIZE`. -/
def heapIndexSize : ℕ := 0x20000

/-- `HEAP_MAGIC`. -/
def heapMagic : ℕ := 0x123890AB

/-- `sizeof(heap_t)`. -/
def heapSize : ℕ := 32

namespace Paging

/-- The state in which `initialise_paging` is called. -/
def start (placement : ℕ) (mem : ℕ → ℕ) : Paging := ⟨mem, Frames.clear, placement, 0⟩

/-- The bitset and the kernel directory. -/
def makeDirectory (s : Paging) : Paging :=
  let (_, s) := s.kmallocInt (nframes / 8) false
  let s := { s with frames := Frames.clear }
  let (dir, s) := s.kmallocInt pageDirectorySize true
  let s := { s with kernelDirectory := dir, mem := memsetZero s.mem dir pageDirectorySize }
  s.write (physicalAddrAddr dir) (tablesPhysicalAddr dir 0)

/-- The first pass over the first `n` pages of the heap area, which makes their tables. -/
def makeHeapTables : ℕ → Paging → Paging
  | 0, s => s
  | n + 1, s =>
      let s := makeHeapTables n s
      (s.getPagePtr (kheapStart + 0x1000 * n) true s.kernelDirectory).2

/-- `alloc_frame(get_page_ptr_in_page_table(address, 1, kernel_directory), 0, 0)`. -/
def allocPage (s : Paging) (address : ℕ) : Option Paging :=
  let (ptr, s) := s.getPagePtr address true s.kernelDirectory
  s.allocFrameAt ptr false false

/-- The loop `while (i < placement_address+0x1000)` from `i`. The counter is a 32-bit word, a
loop that has not ended after `2 ^ 20` turns has wrapped it. -/
def identityLoop : ℕ → ℕ → Paging → Option Paging
  | 0, i, s => if i < (s.placement + 0x1000) % 2 ^ 32 then none else some s
  | n + 1, i, s =>
      if i < (s.placement + 0x1000) % 2 ^ 32 then
        (s.allocPage i).bind fun s => identityLoop n (i + 0x1000) s
      else some s

/-- The identity mapping. -/
def identityMap (s : Paging) : Option Paging := identityLoop (2 ^ 20) 0 s

/-- The second pass over the first `n` pages of the heap area, which gives them frames. -/
def allocHeapPages : ℕ → Paging → Option Paging
  | 0, s => some s
  | n + 1, s =>
      (allocHeapPages n s).bind fun s => s.allocPage (kheapStart + 0x1000 * n)

/-- An assignment through a virtual address: of a word, or of one byte. -/
inductive Assign where
  | word (v w : ℕ)
  | byte (v b : ℕ)

/-- The virtual address of the word that is assigned to. -/
def Assign.addr : Assign → ℕ
  | word v _ => v
  | byte v _ => v / 4 * 4

/-- The word after the assignment. -/
def Assign.value : Assign → ℕ → ℕ
  | word _ w, _ => w
  | byte v b, old =>
      let unit := 256 ^ (v % 4)
      old - old / unit % 256 * unit + b * unit

/-- Assignments made with paging on, one after the other. -/
def assignAll (cr3 : ℕ) : List Assign → Paging → Option Paging
  | [], s => some s
  | a :: as, s =>
      (translate s.mem cr3 a.addr).bind fun x => assignAll cr3 as (s.write x (a.value (s.mem x)))

/-- The start address that `create_heap` computes behind the index. The test for alignment is
`start & (0xFFFFF000 != 0)`, by the precedence of the operators. -/
def heapStartAddress (start : ℕ) : ℕ :=
  let start := start + 4 * heapIndexSize
  if start &&& 1 ≠ 0 then (start &&& 0xFFFFF000) + 0x1000 else start

/-- What `create_heap` assigns, in order: the index is cleared and described, the addresses and
flags are set, one large hole is written and becomes the only entry of the index. -/
def heapAssigns (heap start endAddr max supervisor readonly lessThan : ℕ) : List Assign :=
  let hole := heapStartAddress start
  (List.range heapIndexSize).map (fun k => .word (start + 4 * k) 0) ++
    [.word heap start, .word (heap + 4) 0, .word (heap + 8) heapIndexSize,
      .word (heap + 12) lessThan, .word (heap + 16) hole, .word (heap + 20) endAddr,
      .word (heap + 24) max, .byte (heap + 28) supervisor, .byte (heap + 29) readonly,
      .word (hole + 8) (endAddr - hole), .word hole heapMagic, .byte (hole + 4) 1,
      .word start hole, .word (heap + 4) 1]

/-- `create_heap`, with the pointer to the `heap_t`; `none` when an `ASSERT` fails or an
assignment faults. -/
def createHeap (s : Paging) (start endAddr max supervisor readonly lessThan : ℕ) :
    Option (ℕ × Paging) :=
  let (heap, s) := s.kmallocInt heapSize false
  if start % 0x1000 = 0 ∧ endAddr % 0x1000 = 0 then
    let cr3 := s.mem (physicalAddrAddr s.kernelDirectory)
    (assignAll cr3 (heapAssigns heap start endAddr max supervisor readonly lessThan) s).map
      fun s => (heap, s)
  else none

/-! ### The state during the boot -/

/-- The word of an entry that `alloc_frame(page, 0, 0)` has given the frame `n`. -/
def kernelWord (n : ℕ) : ℕ :=
  Page.toWord { Page.zero with present := true, user := true, frame := Fin.ofNat (2 ^ 20) n }

/-- The table of the pages from `1024 * x` on. -/
def tbl (D x : ℕ) : ℕ := D + 0x5000 + 0x2000 * x

/-- The pointer in slot `x` of the directory once `t` tables of low pages are made. -/
def slot (D t x : ℕ) : ℕ := if x = 768 then D + 0x3000 else if x < t then tbl D x else 0

/-- The directory is at `D`, with `t` tables of low pages; `i` pages are mapped to the frames of
their numbers and `j` pages of the heap to the frames from `i` on. -/
structure Booted (D t i j : ℕ) (s : Paging) : Prop where
  dir : s.kernelDirectory = D
  placement : s.placement = D + 0x4000 + 0x2000 * t
  tables : ∀ x < 1024, s.mem (tablesAddr D x) = slot D t x
  phys : ∀ x < 1024, s.mem (tablesPhysicalAddr D x) = if slot D t x = 0 then 0 else slot D t x + 7
  physicalAddr : s.mem (physicalAddrAddr D) = D + 0x1000
  entries : ∀ n < 1024 * t,
    s.mem (tbl D (n / 1024) + 4 * (n % 1024)) = if n < i then kernelWord n else 0
  heap : ∀ y < 1024, s.mem (D + 0x3000 + 4 * y) = if y < j then kernelWord (i + y) else 0
  fresh : ∀ x, s.placement ≤ x → s.mem x = 0
  used : ∀ f, s.frames.used f = true ↔ f < i + j

/-- Where the directory can be. -/
structure DirAt (D : ℕ) : Prop where
  aligned : D % 0x1000 = 0
  low : 0x101000 ≤ D
  high : D < 0x1000000

variable {D t i j : ℕ} {s : Paging}

/-! ### The directory and the table of the heap -/

lemma makeDirectory_eq {p : ℕ} {mem : ℕ → ℕ} (hp : 0x100000 ≤ p) (hhi : p < 0x1000000)
    (hD : D = (p + 512) / 0x1000 * 0x1000 + 0x1000) :
    makeDirectory (start p mem) =
      ⟨Function.update (memsetZero mem D 0x2004) (D + 0x2000) (D + 0x1000), Frames.clear,
        D + 0x2004, D⟩ := by
  have h512 : nframes / 8 = 512 := by decide
  simp only [makeDirectory, start, h512]
  rw [kmallocInt_noAlign (by simp only; omega)]
  simp only
  rw [kmallocInt_align (by simp only; omega) (by simp only [pageDirectorySize]; omega)]
  simp only [← hD, pageDirectorySize, physicalAddrAddr, tablesPhysicalAddr, write, mul_zero,
    add_zero]

/-- The first page of the heap area makes the table of all of them. -/
lemma makeHeapTables_one {p : ℕ} {mem : ℕ → ℕ} (hp : 0x100000 ≤ p)
    (hD : D = (p + 512) / 0x1000 * 0x1000 + 0x1000) (hdir : DirAt D)
    (hzero : ∀ x, p ≤ x → mem x = 0) :
    Booted D 0 0 0 (makeHeapTables 1 (makeDirectory (start p mem))) := by
  obtain ⟨hal, hlow, hhigh⟩ := hdir
  have hidx : (kheapStart + 0x1000 * 0) / 0x1000 / 1024 = 768 := by decide
  have hpl : (D + 0x2004) / 0x1000 * 0x1000 = D + 0x2000 := by omega
  simp only [makeHeapTables]
  rw [makeDirectory_eq hp (by omega) hD]
  rw [getPagePtr_make _ (by simp only; omega) (by simp only; omega)]
  · simp only [hidx, hpl, add_assoc, Nat.reduceAdd]
    have hmem : ∀ x, D ≤ x → memsetZero mem D 0x2004 x = 0 := by
      intro x hx
      simp only [memsetZero]
      split
      · rfl
      · exact hzero x (by omega)
    refine ⟨rfl, rfl, ?_, ?_, ?_, ?_, ?_, ?_, ?_⟩
    · intro x hx
      simp only [mem_write, Function.update_apply, tablesAddr, tablesPhysicalAddr, slot]
      by_cases h768 : x = 768
      · simp [h768]
      · rw [if_neg (by omega), if_neg (by omega), if_neg (by omega), hmem _ (by omega)]
        simp [h768]
    · intro x hx
      simp only [mem_write, Function.update_apply, tablesAddr, tablesPhysicalAddr, slot]
      by_cases h768 : x = 768
      · simp [h768]
      · rw [if_neg (by omega), if_neg (by omega), if_neg (by omega), hmem _ (by omega)]
        simp [h768]
    · simp only [mem_write, Function.update_apply, tablesAddr, tablesPhysicalAddr,
        physicalAddrAddr]
      rw [if_neg (by omega), if_neg (by omega), if_pos trivial]
    · intro n hn
      omega
    · intro y hy
      simp only [mem_write, Function.update_apply, tablesAddr, tablesPhysicalAddr, not_lt_zero,
        if_false]
      rw [if_neg (by omega), if_neg (by omega), if_neg (by omega), hmem _ (by omega)]
    · intro x hx
      simp only [placement_write] at hx
      simp only [mem_write, Function.update_apply, tablesAddr, tablesPhysicalAddr]
      rw [if_neg (by omega), if_neg (by omega), if_neg (by omega), hmem _ (by omega)]
    · intro f
      simp
  · simp only [hidx, tablesAddr, Function.update_apply, memsetZero]
    rw [if_neg (by omega), if_pos (by omega)]

/-- The table of the heap area is not null. -/
lemma Booted.heapSlot (h : Booted D t i j s) {n : ℕ} (hn : n < 1024) :
    s.mem (tablesAddr D ((kheapStart + 0x1000 * n) / 0x1000 / 1024)) = D + 0x3000 ∧
      (kheapStart + 0x1000 * n) / 0x1000 % 1024 = n := by
  have hidx : (kheapStart + 0x1000 * n) / 0x1000 / 1024 = 768 := by
    simp only [kheapStart]
    omega
  refine ⟨?_, by simp only [kheapStart]; omega⟩
  rw [hidx, h.tables 768 (by norm_num)]
  rfl

/-- The pages behind the first one find the table made. -/
lemma makeHeapTables_succ {s₀ : Paging} (h : Booted D 0 0 0 (makeHeapTables 1 s₀)) {n : ℕ}
    (hn : n < 1024) : makeHeapTables (n + 1) s₀ = makeHeapTables 1 s₀ := by
  induction n with
  | zero => rfl
  | succ n ih =>
      have ih := ih (by omega)
      obtain ⟨hslot, _⟩ := h.heapSlot hn
      have hne : D + 0x3000 ≠ 0 := by omega
      rw [makeHeapTables]
      simp only [ih, h.dir]
      rw [getPagePtr_of_table true (by rw [hslot]; exact hne)]

/-! ### One turn of the loops -/

/-- The word that `alloc_frame` writes for the kernel. -/
lemma allocFrameAt_kernel {ptr : ℕ} (h0 : s.mem ptr = 0) (hused : ∀ f, s.frames.used f = true ↔ f < i)
    (hi : i < nframes) :
    s.allocFrameAt ptr false false =
      some { s.write ptr (kernelWord i) with frames := s.frames.setFrame (i * 0x1000) } := by
  have hfirst : s.frames.firstFrame = some i := by
    refine Frames.firstFrame_eq_some hi ?_ fun g hg => (hused g).mpr hg
    rw [← Bool.not_eq_true, hused]
    exact lt_irrefl i
  rw [allocFrameAt_zero h0 hfirst]
  rfl

/-- The bitset after the next frame is taken. -/
lemma used_setFrame_succ {frames : Frames} (hused : ∀ f, frames.used f = true ↔ f < i) (f : ℕ) :
    (frames.setFrame (i * 0x1000)).used f = true ↔ f < i + 1 := by
  have hdiv : i * 0x1000 / 0x1000 = i := by omega
  rw [Frames.used_setFrame, hdiv, Bool.or_eq_true, hused, beq_iff_eq]
  omega

/-- Making the next table of low pages. -/
lemma booted_table (hdir : DirAt D) (h : Booted D t i 0 s) (hit : i = 1024 * t) (ht : t < 768) :
    ∃ s', s.getPagePtr (0x1000 * i) true D = (tbl D t, s') ∧ Booted D (t + 1) i 0 s' := by
  obtain ⟨hal, hlow, hhigh⟩ := hdir
  have hidx : 0x1000 * i / 0x1000 / 1024 = t := by omega
  have hmod : 0x1000 * i / 0x1000 % 1024 = 0 := by omega
  have hpl : s.placement / 0x1000 * 0x1000 = s.placement := by rw [h.placement]; omega
  have htbl : s.placement + 0x1000 = tbl D t := by rw [h.placement, tbl]; omega
  have hnull : s.mem (tablesAddr D (0x1000 * i / 0x1000 / 1024)) = 0 := by
    rw [hidx, h.tables t (by omega), slot, if_neg (by omega), if_neg (lt_irrefl t)]
  have hget : s.getPagePtr (0x1000 * i) true D = (tbl D t,
      ({ s with placement := s.placement + 0x2000 }.write (tablesAddr D t) (tbl D t)).write
        (tablesPhysicalAddr D t) (tbl D t + 7)) := by
    rw [getPagePtr_make hnull (by rw [h.placement]; omega) (by rw [h.placement]; omega), hidx, hmod,
      hpl, htbl]
  have hslot : ∀ x, slot D (t + 1) x = if x = t then tbl D t else slot D t x := by
    intro x
    simp only [slot]
    by_cases hx : x = t
    · rw [hx, if_neg (by omega), if_pos (Nat.lt_succ_self t), if_pos rfl]
    · have hlt : x < t + 1 ↔ x < t := by omega
      rw [if_neg hx]
      simp only [hlt]
  -- the new words are the slots of the table, everything else keeps its value
  have hother : ∀ x, x ≠ tablesAddr D t → x ≠ tablesPhysicalAddr D t →
      Function.update (Function.update s.mem (tablesAddr D t) (tbl D t))
        (tablesPhysicalAddr D t) (tbl D t + 7) x = s.mem x := by
    intro x h1 h2
    rw [Function.update_of_ne h2, Function.update_of_ne h1]
  have hne : tablesAddr D t ≠ tablesPhysicalAddr D t := by
    simp only [tablesAddr, tablesPhysicalAddr]; omega
  refine ⟨_, hget, h.dir, ?_, ?_, ?_, ?_, ?_, ?_, ?_, h.used⟩
  · change s.placement + 0x2000 = _
    rw [h.placement]
    omega
  · intro x hx
    change Function.update _ _ _ _ = _
    rw [hslot]
    by_cases hxt : x = t
    · rw [hxt, if_pos rfl, Function.update_of_ne hne]
      exact Function.update_self ..
    · rw [if_neg hxt, ← h.tables x hx]
      exact hother _ (by simp only [tablesAddr]; omega)
        (by simp only [tablesAddr, tablesPhysicalAddr]; omega)
  · intro x hx
    change Function.update _ _ _ _ = _
    rw [hslot]
    by_cases hxt : x = t
    · have htn : tbl D t ≠ 0 := by simp only [tbl]; omega
      rw [hxt, if_pos rfl, if_neg htn, Function.update_self]
    · rw [if_neg hxt, ← h.phys x hx]
      exact hother _ (by simp only [tablesAddr, tablesPhysicalAddr]; omega)
        (by simp only [tablesPhysicalAddr]; omega)
  · refine (hother _ ?_ ?_).trans h.physicalAddr
    · simp only [tablesAddr, physicalAddrAddr]; omega
    · simp only [tablesPhysicalAddr, physicalAddrAddr]; omega
  · intro n hn
    refine (hother _ ?_ ?_).trans ?_
    · simp only [tablesAddr, tbl]; omega
    · simp only [tablesPhysicalAddr, tbl]; omega
    · by_cases hnt : n < 1024 * t
      · exact h.entries n hnt
      · rw [if_neg (by omega)]
        refine h.fresh _ ?_
        rw [h.placement, tbl]
        omega
  · intro y hy
    refine (hother _ ?_ ?_).trans (h.heap y hy)
    · simp only [tablesAddr]; omega
    · simp only [tablesPhysicalAddr]; omega
  · intro x hx
    have hx' : s.placement + 0x2000 ≤ x := hx
    refine (hother _ ?_ ?_).trans (h.fresh x (by omega))
    · rw [h.placement] at hx'; simp only [tablesAddr]; omega
    · rw [h.placement] at hx'; simp only [tablesPhysicalAddr]; omega

/-- Giving the next low page the frame of its number. -/
lemma booted_identity (hdir : DirAt D) (h : Booted D t i 0 s) (hit : i < 1024 * t) (ht : t < 768)
    (hi : i < nframes) :
    ∃ s', s.allocFrameAt (tbl D (i / 1024) + 4 * (i % 1024)) false false = some s' ∧
      Booted D t (i + 1) 0 s' := by
  obtain ⟨hal, hlow, hhigh⟩ := hdir
  have h0 : s.mem (tbl D (i / 1024) + 4 * (i % 1024)) = 0 := by
    rw [h.entries i hit, if_neg (lt_irrefl i)]
  have hused : ∀ f, s.frames.used f = true ↔ f < i := h.used
  refine ⟨_, allocFrameAt_kernel h0 hused hi, h.dir, h.placement, ?_, ?_, ?_, ?_, ?_, ?_, ?_⟩
  · intro x hx
    refine (Function.update_of_ne ?_ _ _).trans (h.tables x hx)
    simp only [tablesAddr, tbl]; omega
  · intro x hx
    refine (Function.update_of_ne ?_ _ _).trans (h.phys x hx)
    simp only [tablesPhysicalAddr, tbl]; omega
  · refine (Function.update_of_ne ?_ _ _).trans h.physicalAddr
    simp only [physicalAddrAddr, tbl]; omega
  · intro n hn
    change Function.update _ _ _ _ = _
    by_cases hni : n = i
    · rw [hni, Function.update_self, if_pos (Nat.lt_succ_self i)]
    · rw [Function.update_of_ne (by simp only [tbl]; omega), h.entries n hn]
      have hlt : n < i + 1 ↔ n < i := by omega
      simp only [hlt]
  · intro y hy
    refine (Function.update_of_ne ?_ _ _).trans ?_
    · simp only [tbl]; omega
    · rw [h.heap y hy, if_neg (by omega), if_neg (by omega)]
  · intro x hx
    have hx' : D + 0x4000 + 0x2000 * t ≤ x := h.placement ▸ hx
    refine (Function.update_of_ne ?_ _ _).trans (h.fresh x hx)
    simp only [tbl]; omega
  · exact used_setFrame_succ hused

/-- Giving the next page of the heap the next frame. -/
lemma booted_heap (hdir : DirAt D) (h : Booted D t i j s) (ht : t < 768) (hj : j < 1024)
    (hij : i + j < nframes) :
    ∃ s', s.allocPage (kheapStart + 0x1000 * j) = some s' ∧ Booted D t i (j + 1) s' := by
  obtain ⟨hal, hlow, hhigh⟩ := hdir
  obtain ⟨hslot, hmod⟩ := h.heapSlot hj
  have h0 : s.mem (D + 0x3000 + 4 * j) = 0 := by rw [h.heap j hj, if_neg (lt_irrefl j)]
  have halloc : s.allocPage (kheapStart + 0x1000 * j) =
      s.allocFrameAt (D + 0x3000 + 4 * j) false false := by
    simp only [allocPage, h.dir]
    rw [getPagePtr_of_table true (by rw [hslot]; omega), hslot, hmod]
  refine ⟨_, halloc.trans (allocFrameAt_kernel h0 h.used hij), h.dir, h.placement, ?_, ?_, ?_, ?_,
    ?_, ?_, ?_⟩
  · intro x hx
    refine (Function.update_of_ne ?_ _ _).trans (h.tables x hx)
    simp only [tablesAddr]; omega
  · intro x hx
    refine (Function.update_of_ne ?_ _ _).trans (h.phys x hx)
    simp only [tablesPhysicalAddr]; omega
  · refine (Function.update_of_ne ?_ _ _).trans h.physicalAddr
    simp only [physicalAddrAddr]; omega
  · intro n hn
    refine (Function.update_of_ne ?_ _ _).trans (h.entries n hn)
    simp only [tbl]; omega
  · intro y hy
    change Function.update _ _ _ _ = _
    by_cases hyj : y = j
    · rw [hyj, Function.update_self, if_pos (Nat.lt_succ_self j)]
    · rw [Function.update_of_ne (by omega), h.heap y hy]
      have hlt : y < j + 1 ↔ y < j := by omega
      simp only [hlt]
  · intro x hx
    have hx' : D + 0x4000 + 0x2000 * t ≤ x := h.placement ▸ hx
    exact (Function.update_of_ne (by omega) _ _).trans (h.fresh x hx)
  · exact used_setFrame_succ h.used

/-! ### The loops -/

/-- The turn of the identity mapping at page `i`: a table is made for the first page of each
1024. -/
lemma booted_turn (hdir : DirAt D) (h : Booted D ((i + 1023) / 1024) i 0 s) (hi : i < nframes) :
    ∃ s', s.allocPage (0x1000 * i) = some s' ∧ Booted D ((i + 1 + 1023) / 1024) (i + 1) 0 s' := by
  have hnf : nframes = 4096 := by decide
  simp only [allocPage, h.dir]
  by_cases hmod : i % 1024 = 0
  · obtain ⟨s₁, hget, hb⟩ := booted_table hdir h (by omega) (by omega)
    have hptr : tbl D ((i + 1023) / 1024) = tbl D (i / 1024) + 4 * (i % 1024) := by
      rw [hmod, mul_zero, add_zero]
      congr 1
      omega
    have ht : (i + 1 + 1023) / 1024 = (i + 1023) / 1024 + 1 := by omega
    rw [hget, ht]
    simp only
    rw [hptr]
    exact booted_identity hdir hb (by omega) (by omega) hi
  · have ht : (i + 1 + 1023) / 1024 = (i + 1023) / 1024 := by omega
    have hidx : 0x1000 * i / 0x1000 / 1024 = i / 1024 := by omega
    have hoff : 0x1000 * i / 0x1000 % 1024 = i % 1024 := by omega
    have hslot : s.mem (tablesAddr D (0x1000 * i / 0x1000 / 1024)) = tbl D (i / 1024) := by
      rw [hidx, h.tables _ (by omega), slot, if_neg (by omega), if_pos (by omega)]
    rw [getPagePtr_of_table true (by rw [hslot, tbl]; omega), hslot, hoff, ht]
    exact booted_identity hdir h (by omega) (by omega) hi

/-- The pages that the identity mapping covers when `a` pages lie below the placement address
before the loop: each of the tables it makes for 1024 pages takes two more pages. -/
def identityPages (a : ℕ) : ℕ := a + 2 * ((a + 1 + 1021) / 1022) + 1

/-- The loop ends after `identityPages` turns. -/
lemma identityLoop_booted (hdir : DirAt D) {a n : ℕ} (ha : D + 0x4000 = 0x1000 * a)
    (hK : identityPages a ≤ nframes) (h : Booted D ((i + 1023) / 1024) i 0 s)
    (hi : i ≤ identityPages a) (hn : identityPages a - i ≤ n) :
    ∃ s', identityLoop n (0x1000 * i) s = some s' ∧
      Booted D ((identityPages a + 1023) / 1024) (identityPages a) 0 s' := by
  have hnf : nframes = 4096 := by decide
  have hwrap : (s.placement + 0x1000) % 2 ^ 32 = s.placement + 0x1000 := by
    refine Nat.mod_eq_of_lt ?_
    rw [h.placement]
    have := hdir.high
    simp only [hnf] at hK
    omega
  have hpl : s.placement + 0x1000 = 0x1000 * (a + 2 * ((i + 1023) / 1024) + 1) := by
    rw [h.placement]
    omega
  induction n generalizing i s with
  | zero =>
      have hiK : i = identityPages a := by omega
      refine ⟨s, ?_, hiK ▸ h⟩
      rw [identityLoop, hwrap, hpl, if_neg]
      simp only [identityPages] at hiK
      omega
  | succ n ih =>
      by_cases hiK : i = identityPages a
      · refine ⟨s, ?_, hiK ▸ h⟩
        rw [identityLoop, hwrap, hpl, if_neg]
        simp only [identityPages] at hiK
        omega
      · -- before that turn the placement address is still ahead of the counter
        have hlt : i < a + 2 * ((i + 1023) / 1024) + 1 := by
          simp only [identityPages] at hiK hi
          omega
        obtain ⟨s₁, hs₁, hb⟩ := booted_turn hdir h (by omega)
        rw [identityLoop, hwrap, hpl, if_pos (by omega), hs₁, Option.bind_some]
        have hnext : 0x1000 * i + 0x1000 = 0x1000 * (i + 1) := by ring
        rw [hnext]
        refine ih hb (by omega) (by omega) ?_ ?_
        · refine Nat.mod_eq_of_lt ?_
          rw [hb.placement]
          have := hdir.high
          simp only [hnf] at hK
          omega
        · rw [hb.placement]
          omega

/-- The second pass over the heap area. -/
lemma allocHeapPages_booted (hdir : DirAt D) (h : Booted D t i 0 s) (ht : t < 768) {n : ℕ}
    (hn : n ≤ 1024) (hin : i + n ≤ nframes) :
    ∃ s', allocHeapPages n s = some s' ∧ Booted D t i n s' := by
  induction n with
  | zero => exact ⟨s, rfl, h⟩
  | succ n ih =>
      obtain ⟨s₁, hs₁, hb⟩ := ih (by omega) (by omega)
      obtain ⟨s₂, hs₂, hb₂⟩ := booted_heap hdir hb ht (by omega) (by omega)
      exact ⟨s₂, by rw [allocHeapPages, hs₁, Option.bind_some, hs₂], hb₂⟩

/-! ### The heap structure -/

/-- The page `n` of the kernel directory is present with the frame `f`. -/
def MapsTo (s : Paging) (n f : ℕ) : Prop :=
  let table := s.mem (tablesAddr s.kernelDirectory (n / 1024))
  let page := Page.ofWord (s.mem (table + 4 * (n % 1024)))
  table ≠ 0 ∧ page.present = true ∧ page.frame.val = f

/-- The entry in a word written by the boot. -/
lemma ofWord_kernelWord {n : ℕ} (hn : n < nframes) :
    (Page.ofWord (kernelWord n)).present = true ∧ (Page.ofWord (kernelWord n)).frame.val = n := by
  rw [kernelWord, Page.ofWord_toWord]
  exact ⟨rfl, val_ofNat_of_lt hn⟩

/-- What lies below the placement address decides the mappings: the low pages. -/
lemma Booted.mapsTo (h : Booted D t i j s) (hdir : DirAt D) (hi : i ≤ nframes)
    (hit : i ≤ 1024 * t) (ht : t < 768) {s' : Paging} (hd : s'.kernelDirectory = D)
    (hmem : ∀ x < s.placement, s'.mem x = s.mem x) {n : ℕ} (hn : n < i) : s'.MapsTo n n := by
  obtain ⟨hal, hlow, hhigh⟩ := hdir
  have hpl := h.placement
  have hslot : s'.mem (tablesAddr D (n / 1024)) = tbl D (n / 1024) := by
    rw [hmem _ (by simp only [tablesAddr]; omega), h.tables _ (by omega), slot,
      if_neg (by omega), if_pos (by omega)]
  have hentry : s'.mem (tbl D (n / 1024) + 4 * (n % 1024)) = kernelWord n := by
    rw [hmem _ (by simp only [tbl]; omega), h.entries n (by omega), if_pos hn]
  simp only [MapsTo, hd, hslot, hentry]
  exact ⟨by simp only [tbl]; omega, ofWord_kernelWord (by omega)⟩

/-- Addresses below the identity-mapped pages stand for themselves. -/
lemma Booted.translate_low (h : Booted D t i j s) (hdir : DirAt D) (hi : i ≤ nframes)
    (hit : i ≤ 1024 * t) (ht : t < 768) {mem : ℕ → ℕ}
    (hmem : ∀ x < s.placement, mem x = s.mem x) {v : ℕ} (hv : v < 0x1000 * i) :
    translate mem (D + 0x1000) v = some v := by
  obtain ⟨hal, hlow, hhigh⟩ := hdir
  have hpl := h.placement
  have hpde : mem (D + 0x1000 + 4 * (v / 0x400000)) = tbl D (v / 0x400000) + 7 := by
    have hne : tbl D (v / 0x400000) ≠ 0 := by simp only [tbl]; omega
    have hslot : slot D t (v / 0x400000) = tbl D (v / 0x400000) := by
      rw [slot, if_neg (by omega), if_pos (by omega)]
    rw [hmem _ (by omega)]
    refine (h.phys (v / 0x400000) (by omega)).trans ?_
    rw [hslot, if_neg hne]
  have hbase : (tbl D (v / 0x400000) + 7) / 0x1000 * 0x1000 = tbl D (v / 0x400000) := by
    simp only [tbl]; omega
  have hentry : mem (tbl D (v / 0x400000) + 4 * (v / 0x1000 % 1024)) = kernelWord (v / 0x1000) := by
    have hdiv : v / 0x1000 / 1024 = v / 0x400000 := by omega
    rw [hmem _ (by simp only [tbl]; omega), ← hdiv, h.entries (v / 0x1000) (by omega),
      if_pos (by omega)]
  obtain ⟨hp, hf⟩ := ofWord_kernelWord (n := v / 0x1000) (by omega)
  simp only [translate, hpde, hbase, hentry, hp, hf]
  rw [if_pos ⟨by simp only [tbl]; omega, trivial⟩, Nat.div_add_mod']

/-- Addresses of the heap area stand for frames behind the identity-mapped ones. -/
lemma Booted.translate_heap (h : Booted D t i j s) (hdir : DirAt D) (hij : i + j ≤ nframes)
    (hj : j ≤ 1024) {mem : ℕ → ℕ} (hmem : ∀ x < s.placement, mem x = s.mem x) {v : ℕ}
    (hlo : kheapStart ≤ v) (hhi : v < kheapStart + 0x1000 * j) :
    translate mem (D + 0x1000) v
      = some (0x1000 * (i + (v - kheapStart) / 0x1000) + v % 0x1000) := by
  obtain ⟨hal, hlow, hhigh⟩ := hdir
  have hpl := h.placement
  simp only [kheapStart] at hlo hhi ⊢
  have hidx : v / 0x400000 = 768 := by omega
  have hpde : mem (D + 0x1000 + 4 * (v / 0x400000)) = D + 0x3000 + 7 := by
    have hslot : slot D t 768 = D + 0x3000 := if_pos rfl
    rw [hidx, hmem _ (by omega)]
    refine (h.phys 768 (by omega)).trans ?_
    rw [hslot, if_neg (by omega)]
  have hbase : (D + 0x3000 + 7) / 0x1000 * 0x1000 = D + 0x3000 := by omega
  have hmod : v / 0x1000 % 1024 = (v - 0xC0000000) / 0x1000 := by omega
  have hentry : mem (D + 0x3000 + 4 * (v / 0x1000 % 1024)) =
      kernelWord (i + (v - 0xC0000000) / 0x1000) := by
    rw [hmod, hmem _ (by omega), h.heap _ (by omega), if_pos (by omega)]
  obtain ⟨hp, hf⟩ := ofWord_kernelWord (n := i + (v - 0xC0000000) / 0x1000) (by omega)
  simp only [translate, hpde, hbase, hentry, hp, hf]
  rw [if_pos ⟨by omega, trivial⟩, Nat.mul_comm]

/-- Assignments to addresses whose words lie above `L`, whatever is stored there, go through
and leave the words below `L`. -/
lemma assignAll_above {cr3 L : ℕ} {s₀ : Paging} {as : List Assign}
    (has : ∀ a ∈ as, ∀ mem : ℕ → ℕ, (∀ x < L, mem x = s₀.mem x) →
      ∃ x, translate mem cr3 a.addr = some x ∧ L ≤ x)
    (hs : ∀ x < L, s.mem x = s₀.mem x) :
    ∃ s', assignAll cr3 as s = some s' ∧ (∀ x < L, s'.mem x = s₀.mem x) ∧
      s'.placement = s.placement ∧ s'.kernelDirectory = s.kernelDirectory ∧
      s'.frames = s.frames := by
  induction as generalizing s with
  | nil => exact ⟨s, rfl, hs, rfl, rfl, rfl⟩
  | cons a as ih =>
      obtain ⟨x, hx, hL⟩ := has a (by simp) s.mem hs
      have hs' : ∀ y < L, (s.write x (a.value (s.mem x))).mem y = s₀.mem y := by
        intro y hy
        rw [mem_write, Function.update_of_ne (by omega)]
        exact hs y hy
      obtain ⟨s', hs'', hrest⟩ := ih (fun b hb => has b (by simp [hb])) hs'
      exact ⟨s', by rw [assignAll, hx, Option.bind_some, hs''], hrest⟩

/-- `create_heap` on the booted state assigns only above the placement address. -/
lemma createHeap_booted (h : Booted D t i 256 s) (hdir : DirAt D) (hi : i + 256 ≤ nframes)
    (hit : i ≤ 1024 * t) (ht : t < 768) (hpl : s.placement + 0x1000 = 0x1000 * i)
    (lessThan : ℕ) :
    ∃ s', s.createHeap kheapStart (kheapStart + kheapInitialSize) 0xCFFFF000 0 0 lessThan
        = some (s.placement, s') ∧ (∀ x < s.placement, s'.mem x = s.mem x) ∧
      s'.placement = s.placement + heapSize ∧ s'.kernelDirectory = D ∧ s'.frames = s.frames := by
  have hnf : nframes = 4096 := by decide
  have hstart : heapStartAddress kheapStart = 0xC0080000 := by decide
  obtain ⟨L, hL⟩ : ∃ L, L = s.placement := ⟨_, rfl⟩
  have hhi := hdir.high
  have hdpl := h.placement
  have hcr3 : s.mem (physicalAddrAddr s.kernelDirectory) = D + 0x1000 := by
    rw [h.dir]; exact h.physicalAddr
  have habove : ∀ a ∈ heapAssigns L kheapStart (kheapStart + kheapInitialSize) 0xCFFFF000 0 0
      lessThan, ∀ mem : ℕ → ℕ, (∀ x < L, mem x = s.mem x) →
      ∃ x, translate mem (D + 0x1000) a.addr = some x ∧ L ≤ x := by
    intro a ha mem hm
    have hm' : ∀ x < s.placement, mem x = s.mem x := hL ▸ hm
    have hheap : ∀ v, kheapStart ≤ v → v < kheapStart + 0x1000 * 256 →
        ∃ x, translate mem (D + 0x1000) v = some x ∧ L ≤ x := fun v hlo hlt =>
      ⟨_, h.translate_heap hdir (by omega) (by norm_num) hm' hlo hlt, by omega⟩
    have hlow : ∀ v, L ≤ v → v < L + 0x1000 →
        ∃ x, translate mem (D + 0x1000) v = some x ∧ L ≤ x := fun v hlo hlt =>
      ⟨v, h.translate_low hdir (by omega) hit ht hm' (by omega), hlo⟩
    simp only [heapAssigns, hstart, List.mem_append, List.mem_map, List.mem_range, List.mem_cons,
      List.not_mem_nil, or_false] at ha
    simp only [kheapStart, heapIndexSize] at ha hheap
    rcases ha with ⟨k, hk, rfl⟩ | rfl | rfl | rfl | rfl | rfl | rfl | rfl | rfl | rfl | rfl | rfl |
      rfl | rfl | rfl
    · exact hheap _ (by simp only [Assign.addr]; omega) (by simp only [Assign.addr]; omega)
    all_goals simp only [Assign.addr]
    all_goals first | exact hlow _ (by omega) (by omega) | exact hheap _ (by omega) (by omega)
  have hcond : kheapStart % 0x1000 = 0 ∧ (kheapStart + kheapInitialSize) % 0x1000 = 0 := by decide
  have hs : ∀ x < L, { s with placement := L + heapSize }.mem x = s.mem x := fun _ _ => rfl
  obtain ⟨s', hs', hmem, hp, hd, hf⟩ := assignAll_above habove hs
  refine ⟨s', ?_, hL ▸ hmem, hL ▸ hp, hd.trans h.dir, hf⟩
  have hk : s.kmallocInt heapSize false = (L, { s with placement := L + heapSize }) := by
    rw [hL]
    exact kmallocInt_noAlign (by simp only [heapSize]; omega)
  rw [createHeap, hk]
  simp only
  rw [if_pos hcond, hcr3, hs', Option.map_some, hL]

/-- The frames that the boot needs when it starts with the placement address `p`: those of the
identity-mapped pages and of the initial heap area. -/
def framesNeeded (p : ℕ) : ℕ :=
  identityPages ((p + 512) / 0x1000 + 5) + kheapInitialSize / 0x1000

/-- The state up to the identity mapping, for any placement address the memory has room for. -/
lemma boot_booted {p : ℕ} {mem : ℕ → ℕ} (hp : 0x100000 ≤ p) (hsize : framesNeeded p ≤ nframes)
    (hzero : ∀ x, p ≤ x → mem x = 0) :
    ∃ D t K s₁ s₂, DirAt D ∧ t < 768 ∧ K ≤ 1024 * t ∧ K + 256 ≤ nframes ∧
      framesNeeded p = K + 256 ∧
      identityMap (makeHeapTables 256 (makeDirectory (start p mem))) = some s₁ ∧
      Booted D t K 0 s₁ ∧ allocHeapPages 256 s₁ = some s₂ ∧ Booted D t K 256 s₂ ∧
      s₁.placement + 0x1000 = 0x1000 * K := by
  have hnf : nframes = 4096 := by decide
  have hheap : kheapInitialSize / 0x1000 = 256 := by decide
  obtain ⟨D, hD⟩ : ∃ D, D = (p + 512) / 0x1000 * 0x1000 + 0x1000 := ⟨_, rfl⟩
  obtain ⟨a, ha⟩ : ∃ a, a = (p + 512) / 0x1000 + 5 := ⟨_, rfl⟩
  rw [framesNeeded, ← ha, hheap] at hsize ⊢
  have hK : a + 2 * ((a + 1 + 1021) / 1022) + 1 = identityPages a := rfl
  have hdir : DirAt D := ⟨by omega, by omega, by omega⟩
  have hb₀ := makeHeapTables_one hp hD hdir hzero
  have hheaps : makeHeapTables 256 (makeDirectory (start p mem)) =
      makeHeapTables 1 (makeDirectory (start p mem)) := makeHeapTables_succ hb₀ (by norm_num)
  obtain ⟨s₁, hs₁, hb₁⟩ := identityLoop_booted hdir (a := a) (n := 2 ^ 20) (by omega) (by omega)
    hb₀ (Nat.zero_le _) (by omega)
  obtain ⟨s₂, hs₂, hb₂⟩ := allocHeapPages_booted hdir hb₁ (by omega) (n := 256) (by norm_num)
    (by omega)
  refine ⟨D, _, identityPages a, s₁, s₂, hdir, ?_, ?_, hsize, rfl, ?_, hb₁, hs₂, hb₂, ?_⟩
  · omega
  · omega
  · rw [hheaps]
    exact hs₁
  · rw [hb₁.placement]
    omega

/-- **The boot identity mapping**: the loop ends, and when `kheap` is assigned every page below
the placement address, and with it the directory, every page table and the `heap_t`, is mapped
to the frame of its number; the pass over the heap area in between allocates nothing from the
placement address and changes none of these mappings. -/
theorem boot_identity_mapping {p : ℕ} {mem : ℕ → ℕ} (hp : 0x100000 ≤ p)
    (hsize : framesNeeded p ≤ nframes) (hzero : ∀ x, p ≤ x → mem x = 0) (lessThan : ℕ) :
    ∃ s₁ s₂ heap s₃,
      identityMap (makeHeapTables 256 (makeDirectory (start p mem))) = some s₁ ∧
      allocHeapPages 256 s₁ = some s₂ ∧
      s₂.createHeap kheapStart (kheapStart + kheapInitialSize) 0xCFFFF000 0 0 lessThan
        = some (heap, s₃) ∧
      s₂.placement = s₁.placement ∧
      (∀ n, 0x1000 * n < s₃.placement → s₁.MapsTo n n ∧ s₂.MapsTo n n ∧ s₃.MapsTo n n) ∧
      heap + heapSize ≤ s₃.placement ∧
      s₃.kernelDirectory + pageDirectorySize ≤ s₃.placement ∧
      ∀ x < 1024, s₃.mem (tablesAddr s₃.kernelDirectory x) + pageTableSize ≤ s₃.placement := by
  obtain ⟨D, t, K, s₁, s₂, hdir, ht, hKt, hK, _, hs₁, hb₁, hs₂, hb₂, hpl⟩ :=
    boot_booted hp hsize hzero
  have hpl₂ : s₂.placement = s₁.placement := by rw [hb₁.placement, hb₂.placement]
  obtain ⟨s₃, hs₃, hmem, hpl₃, hdir₃, _⟩ :=
    createHeap_booted hb₂ hdir hK hKt ht (by rw [hpl₂]; exact hpl) lessThan
  have hDpl : D + 0x4000 + 0x2000 * t = s₂.placement := hb₂.placement.symm
  refine ⟨s₁, s₂, _, s₃, hs₁, hs₂, hs₃, hpl₂, fun n hn => ?_, hpl₃.ge, ?_, fun x hx => ?_⟩
  · have hnK : n < K := by
      rw [hpl₃, heapSize] at hn
      omega
    exact ⟨hb₁.mapsTo hdir (by omega) hKt ht hb₁.dir (fun _ _ => rfl) hnK,
      hb₂.mapsTo hdir (by omega) hKt ht hb₂.dir (fun _ _ => rfl) hnK,
      hb₂.mapsTo hdir (by omega) hKt ht hdir₃ hmem hnK⟩
  · rw [hdir₃, hpl₃, pageDirectorySize, heapSize]
    omega
  · have hlow := hdir.low
    rw [hdir₃, hmem _ (by simp only [tablesAddr]; omega), hb₂.tables x hx, hpl₃]
    simp only [slot, tbl, pageTableSize, heapSize]
    split_ifs <;> omega

/-- The boot from the placement address of the source, with zeroed memory. -/
theorem boot_identity_mapping_default :
    framesNeeded 0x100000 = 520 ∧
    ∃ s₁ s₂ heap s₃,
      identityMap (makeHeapTables 256 (makeDirectory (start 0x100000 fun _ => 0))) = some s₁ ∧
      allocHeapPages 256 s₁ = some s₂ ∧
      s₂.createHeap kheapStart (kheapStart + kheapInitialSize) 0xCFFFF000 0 0 0
        = some (heap, s₃) ∧
      s₂.placement = s₁.placement ∧
      (∀ n, 0x1000 * n < s₃.placement → s₁.MapsTo n n ∧ s₂.MapsTo n n ∧ s₃.MapsTo n n) ∧
      heap + heapSize ≤ s₃.placement ∧
      s₃.kernelDirectory + pageDirectorySize ≤ s₃.placement ∧
      ∀ x < 1024, s₃.mem (tablesAddr s₃.kernelDirectory x) + pageTableSize ≤ s₃.placement :=
  ⟨by decide, boot_identity_mapping (by norm_num) (by decide) (fun _ _ => rfl) 0⟩

end Paging

end Matanos
