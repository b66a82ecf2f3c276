import Matanos.Heap.Grow
import Matanos.Lib.Run
import Matanos.Paging.Boot

/-!
The pages under the kernel heap, over runs of `expand` and `contract`.

* `kernelPager`: the heap's use of paging, `alloc_frame` and `free_frame` on the entries of the
  kernel directory, made without creating tables;
* `HeapPages`, `Resize`, `HeapPages.step`: the heap with the tables, and one resize;
* `Backed`: every page that overlaps the heap is present with a frame;
* `Fits`: the resizes that keep it, from the state before: the size stays in the one table made
  at the boot, the loop reaches the page of the last byte, and frame 0, which is no frame to
  `alloc_frame`, is not handed out (`expand`), or no page that stays in use is freed
  (`contract`);
* `heap_backed`: over every run of fitting resizes from the boot the heap stays backed and no
  null entry is used; `expand_leaves_hole`: two calls of `alloc` after which it is not.
-/

namespace Matanos

open Lib

/-- What `expand` and `contract` do to the page of an address in the kernel directory. -/
def kernelPager : Pager Paging where
  alloc address isKernel isWriteable s :=
    let (ptr, s) := s.getPagePtr address false s.kernelDirectory
    if ptr = 0 then .error .nullPage
    else (s.allocFrameAt ptr isKernel isWriteable).elim (.error .noFrame) .ok
  free address s :=
    let (ptr, s) := s.getPagePtr address false s.kernelDirectory
    if ptr = 0 then .error .nullPage else .ok (s.freeFrameAt ptr)

/-- The `heap_t` that `create_heap` fills in when `initialise_paging` calls it. -/
def bootHeap : Heap where
  array := kheapStart
  size := 1
  maxSize := heapIndexSize
  startAddress := Paging.heapStartAddress kheapStart
  endAddress := kheapStart + kheapInitialSize
  maxAddress := 0xCFFFF000
  supervisor := false
  readonly := false

/-- `initialise_paging` up to the assignment of `kheap`. -/
def Paging.boot (p : ℕ) (mem : ℕ → ℕ) (lessThan : ℕ) : Option Paging :=
  ((identityMap (makeHeapTables 256 (makeDirectory (start p mem)))).bind (allocHeapPages 256)).bind
    fun s => (s.createHeap kheapStart (kheapStart + kheapInitialSize) 0xCFFFF000 0 0 lessThan).map
      Prod.snd

/-- The heap and the page tables. -/
structure HeapPages where
  heap : Heap
  paging : Paging

/-- A call of `expand` or of `contract`. -/
inductive Resize where
  | expand (newSize : ℕ)
  | contract (newSize : ℕ)

namespace HeapPages

/-- One call. -/
def step (s : HeapPages) : Resize → Except Halt HeapPages
  | .expand n => (s.heap.expand kernelPager n s.paging).map fun (h, p) => ⟨h, p⟩
  | .contract n => (s.heap.contract kernelPager n s.paging).map fun (_, h, p) => ⟨h, p⟩

/-- One call, when it returns. -/
def step? (s : HeapPages) (a : Resize) : Option HeapPages := (s.step a).toOption

/-- The page `n` has an entry that is present and has a frame. -/
def PageBacked (s : Paging) (n : ℕ) : Prop :=
  let (ptr, _) := s.getPagePtr (0x1000 * n) false s.kernelDirectory
  ptr ≠ 0 ∧ (Page.ofWord (s.mem ptr)).present = true ∧ (Page.ofWord (s.mem ptr)).frame ≠ 0

/-- The page `n` overlaps the addresses from `a` to below `b`. -/
def Overlaps (n a b : ℕ) : Prop := 0x1000 * n < b ∧ a < 0x1000 * (n + 1)

/-- Every page of the heap is backed. -/
def Backed (s : HeapPages) : Prop :=
  ∀ n, Overlaps n s.heap.startAddress s.heap.endAddress → PageBacked s.paging n

/-- The resizes that the code can carry out. -/
def Fits (s : HeapPages) : Resize → Prop
  | .expand n =>
      let new := Heap.roundExpand n
      let start := s.heap.startAddress
      n ≤ 0x380000 ∧
        (new % 0x1000 = 0 ∨ s.heap.length % 0x1000 < new % 0x1000 ∨
          PageBacked s.paging ((start + new) / 0x1000)) ∧
        (s.paging.frames.used 0 = true ∨
          ∀ n, Overlaps n s.heap.endAddress (start + new) → PageBacked s.paging n)
  | .contract n =>
      let new := Heap.roundContract n
      new % 0x1000 = 0 ∨ s.heap.length % 0x1000 ≤ new % 0x1000 ∨
        new / 0x1000 = s.heap.length / 0x1000

/-! ### The table of the heap -/

/-- The entry of the page `k` of the heap area, in a table behind the directory `D`. -/
def entry (D : ℕ) (s : Paging) (k : ℕ) : Page := Page.ofWord (s.mem (D + 0x3000 + 4 * k))

/-- The directory has the table of the heap area, and entries with a frame are present. -/
structure Covered (D : ℕ) (s : Paging) : Prop where
  dir : s.kernelDirectory = D
  table : s.mem (tablesAddr D 768) = D + 0x3000
  present : ∀ k < 1024, (entry D s k).frame ≠ 0 → (entry D s k).present = true

variable {D k : ℕ} {s s' : Paging}

/-- The entry that a heap address finds. -/
lemma Covered.getPagePtr_eq (h : Covered D s) {address : ℕ} (hk : k < 1024)
    (haddr : address / 0x1000 = 0xC0000 + k) :
    s.getPagePtr address false s.kernelDirectory = (D + 0x3000 + 4 * k, s) := by
  have hidx : address / 0x1000 / 1024 = 768 := by omega
  have hmod : address / 0x1000 % 1024 = k := by omega
  rw [h.dir, Paging.getPagePtr_of_table false (by rw [hidx, h.table]; omega), hidx, h.table, hmod]

lemma Covered.pageBacked_iff (h : Covered D s) (hk : k < 1024) :
    PageBacked s (0xC0000 + k) ↔ (entry D s k).frame ≠ 0 := by
  have hptr : s.getPagePtr (0x1000 * (0xC0000 + k)) false s.kernelDirectory = _ :=
    h.getPagePtr_eq hk (by omega)
  simp only [PageBacked, hptr]
  constructor
  · rintro ⟨_, _, hf⟩
    exact hf
  · intro hf
    exact ⟨by omega, h.present k hk hf, hf⟩

/-- What a change of one entry leaves. -/
lemma entry_putPage {r : Frames × Page} {k' : ℕ} :
    entry D (s.putPage (D + 0x3000 + 4 * k) r) k' = if k' = k then r.2 else entry D s k' := by
  simp only [entry, Paging.putPage, Paging.mem_write]
  by_cases hk : k' = k
  · rw [hk, Function.update_self, if_pos rfl, Page.ofWord_toWord]
  · rw [Function.update_of_ne (by omega), if_neg hk]

lemma Covered.putPage (h : Covered D s) {r : Frames × Page}
    (hr : r.2.frame ≠ 0 → r.2.present = true) :
    Covered D (s.putPage (D + 0x3000 + 4 * k) r) := by
  refine ⟨h.dir, ?_, fun k' hk' => ?_⟩
  · simp only [Paging.putPage, Paging.mem_write, tablesAddr]
    rw [Function.update_of_ne (by omega)]
    exact h.table
  · rw [entry_putPage]
    split
    · exact hr
    · exact h.present k' hk'

/-- The entry that `alloc_frame` is given for a page of the heap area. -/
lemma Covered.alloc_eq (h : Covered D s) {address : ℕ} (hk : k < 1024)
    (haddr : address / 0x1000 = 0xC0000 + k) (b w : Bool) :
    kernelPager.alloc address b w s =
      ((allocFrame s.frames (entry D s k) b w).map (s.putPage (D + 0x3000 + 4 * k))).elim
        (.error .noFrame) .ok := by
  have hptr := h.getPagePtr_eq hk haddr
  have hne : D + 0x3000 + 4 * k ≠ 0 := by omega
  simp only [kernelPager, hptr, if_neg hne]
  rfl

/-- **`alloc_frame` on a page of the heap area**: the page has a frame after it, unless there is
none, provided the frame it gets is not frame 0. -/
lemma Covered.alloc (h : Covered D s) {address : ℕ} (hk : k < 1024)
    (haddr : address / 0x1000 = 0xC0000 + k) (b w : Bool)
    (hzero : s.frames.used 0 = true ∨ (entry D s k).frame ≠ 0) :
    kernelPager.alloc address b w s = .error .noFrame ∨
      ∃ s', kernelPager.alloc address b w s = .ok s' ∧ Covered D s' ∧ (entry D s' k).frame ≠ 0 ∧
        (∀ k', (entry D s k').frame ≠ 0 → (entry D s' k').frame ≠ 0) ∧
        (s.frames.used 0 = true → s'.frames.used 0 = true) := by
  rw [h.alloc_eq hk haddr]
  by_cases hf : (entry D s k).frame = 0
  · have hused := hzero.resolve_right (not_not.mpr hf)
    cases hfirst : s.frames.firstFrame with
    | none =>
        left
        rw [allocFrame, if_neg (not_not.mpr hf), hfirst]
        rfl
    | some f =>
        right
        obtain ⟨hlt, hclear, _⟩ := Frames.firstFrame_spec hfirst
        have hf0 : (Fin.ofNat (2 ^ 20) f) ≠ 0 := by
          intro h0
          have hval := val_ofNat_of_lt hlt
          rw [h0] at hval
          rw [← hval] at hclear
          exact Bool.false_ne_true (hclear.symm.trans hused)
        rw [allocFrame_eq hf hfirst]
        refine ⟨_, rfl, h.putPage fun _ => rfl, ?_, fun k' hk' => ?_, fun hu => ?_⟩
        · rw [entry_putPage, if_pos rfl]
          exact hf0
        · rw [entry_putPage]
          split
          · exact hf0
          · exact hk'
        · change (s.frames.setFrame (f * 0x1000)).used 0 = true
          rw [Frames.used_setFrame, hu, Bool.true_or]
  · -- the entry has a frame: the call writes it back as it was
    right
    rw [allocFrame, if_pos hf]
    refine ⟨_, rfl, h.putPage fun _ => h.present k hk hf, ?_, fun k' hk' => ?_, id⟩
    · rw [entry_putPage, if_pos rfl]
      exact hf
    · rw [entry_putPage]
      split
      · exact hf
      · exact hk'

/-- **`free_frame` on a page of the heap area** changes no other page. -/
lemma Covered.free (h : Covered D s) {address : ℕ} (hk : k < 1024)
    (haddr : address / 0x1000 = 0xC0000 + k) :
    ∃ s', kernelPager.free address s = .ok s' ∧ Covered D s' ∧
      ∀ k', k' ≠ k → entry D s' k' = entry D s k' := by
  have hptr := h.getPagePtr_eq hk haddr
  have hne : D + 0x3000 + 4 * k ≠ 0 := by omega
  have hr : (freeFrame s.frames (entry D s k)).2.frame ≠ 0 →
      (freeFrame s.frames (entry D s k)).2.present = true := by
    rw [freeFrame]
    split
    · exact h.present k hk
    · intro h0
      exact absurd rfl h0
  refine ⟨s.freeFrameAt (D + 0x3000 + 4 * k), ?_, h.putPage hr, fun k' hk' => ?_⟩
  · simp only [kernelPager, hptr, if_neg hne]
  · rw [Paging.freeFrameAt, entry_putPage, if_neg hk']

/-! ### The loops -/

variable {h : Heap} {i n new : ℕ}

/-- The loop of `expand`: every page it visits has a frame after it. -/
lemma expandLoop_covered (hstart : h.startAddress = 0xC0080000) (hnew : new ≤ 0x380000)
    (hfuel : new ≤ i + 0x1000 * n) (hcov : Covered D s)
    (hzero : s.frames.used 0 = true ∨
      ∀ k, i / 0x1000 ≤ k → 0x1000 * k < new → (entry D s (0x80 + k)).frame ≠ 0) :
    h.expandLoop kernelPager new n i s = .error .noFrame ∨
      ∃ s', h.expandLoop kernelPager new n i s = .ok s' ∧ Covered D s' ∧
        (∀ k, (entry D s k).frame ≠ 0 → (entry D s' k).frame ≠ 0) ∧
        ∀ m, i + 0x1000 * m < new → (entry D s' (0x80 + (i / 0x1000 + m))).frame ≠ 0 := by
  induction n generalizing i s with
  | zero =>
      right
      exact ⟨s, if_neg (by omega), hcov, fun _ => id, fun m hm => by omega⟩
  | succ n ih =>
      by_cases hi : i < new
      · have hadd : add32 h.startAddress i = 0xC0080000 + i := by
          rw [hstart]
          exact add32_of_lt (by omega)
        have hnext : add32 i 0x1000 = i + 0x1000 := add32_of_lt (by omega)
        have haddr : (0xC0080000 + i) / 0x1000 = 0xC0000 + (0x80 + i / 0x1000) := by omega
        have halloc := hcov.alloc (by omega) haddr h.supervisor (!h.readonly)
          (hzero.imp id fun hz => hz _ le_rfl (by omega))
        rw [Heap.expandLoop, if_pos hi, hadd, hnext]
        rcases halloc with hnone | ⟨s₁, hs₁, hcov₁, hk, hmono, hused⟩
        · left
          rw [hnone]
          rfl
        · rw [hs₁]
          change h.expandLoop kernelPager new n (i + 0x1000) s₁ = _ ∨ _
          have hzero₁ : s₁.frames.used 0 = true ∨ ∀ k, (i + 0x1000) / 0x1000 ≤ k →
              0x1000 * k < new → (entry D s₁ (0x80 + k)).frame ≠ 0 :=
            hzero.imp hused fun hz k hk hlt => hmono _ (hz k (by omega) hlt)
          rcases ih (by omega) hcov₁ hzero₁ with hnone | ⟨s₂, hs₂, hcov₂, hmono₂, hvisit⟩
          · exact Or.inl hnone
          · refine Or.inr ⟨s₂, hs₂, hcov₂, fun k hk => hmono₂ k (hmono k hk), fun m hm => ?_⟩
            rcases Nat.eq_zero_or_pos m with rfl | hm0
            · exact hmono₂ _ hk
            · have hv := hvisit (m - 1) (by omega)
              have hidx : (i + 0x1000) / 0x1000 + (m - 1) = i / 0x1000 + m := by omega
              rwa [hidx] at hv
      · right
        exact ⟨s, if_neg hi, hcov, fun _ => id, fun m hm => by omega⟩

/-- The loop of `contract`: it changes only the pages it steps through. -/
lemma contractLoop_covered (hstart : h.startAddress = 0xC0080000) (hi : i < 0x380000)
    (hnew : 0x1000 ≤ new) (hfuel : i ≤ new + 0x1000 * n) (hcov : Covered D s) :
    ∃ s', h.contractLoop kernelPager new n i s = .ok s' ∧ Covered D s' ∧
      ∀ k, 0x1000 * k + i % 0x1000 ≤ new ∨ i < 0x1000 * k →
        entry D s' (0x80 + k) = entry D s (0x80 + k) := by
  induction n generalizing i s with
  | zero => exact ⟨s, if_neg (by omega), hcov, fun _ _ => rfl⟩
  | succ n ih =>
      by_cases hni : new < i
      · have hadd : add32 h.startAddress i = 0xC0080000 + i := by
          rw [hstart]
          exact add32_of_lt (by omega)
        have hprev : sub32 i 0x1000 = i - 0x1000 := sub32_of_le (by omega) (by omega)
        have haddr : (0xC0080000 + i) / 0x1000 = 0xC0000 + (0x80 + i / 0x1000) := by omega
        obtain ⟨s₁, hs₁, hcov₁, hsame⟩ := hcov.free (by omega) haddr
        obtain ⟨s₂, hs₂, hcov₂, hsame₂⟩ := ih (i := i - 0x1000) (by omega) (by omega) hcov₁
        refine ⟨s₂, ?_, hcov₂, fun k hk => ?_⟩
        · rw [Heap.contractLoop, if_pos hni, hadd, hs₁, hprev]
          exact hs₂
        · rw [hsame₂ k (by omega), hsame _ (by omega)]
      · exact ⟨s, if_neg hni, hcov, fun _ _ => rfl⟩

/-! ### Resizes -/

/-- The heap of the boot with the size `L`, its tables, and the pages up to its end with
frames. -/
structure Sized (D L : ℕ) (s : HeapPages) : Prop where
  heap : s.heap = { bootHeap with endAddress := 0xC0080000 + L }
  least : 0x70000 ≤ L
  most : L ≤ 0x380000
  covered : Covered D s.paging
  frames : ∀ k, 0x1000 * k < L → (entry D s.paging (0x80 + k)).frame ≠ 0

lemma bootHeap_startAddress : bootHeap.startAddress = 0xC0080000 := by decide

variable {L : ℕ} {t : HeapPages}

lemma Sized.start (hs : Sized D L t) : t.heap.startAddress = 0xC0080000 := by
  rw [hs.heap]
  exact bootHeap_startAddress

lemma Sized.endAddress (hs : Sized D L t) : t.heap.endAddress = 0xC0080000 + L := by rw [hs.heap]

lemma Sized.length (hs : Sized D L t) : t.heap.length = L := by
  have hmost := hs.most
  rw [Heap.length, hs.start, hs.endAddress, sub32_of_le (by omega) (by omega)]
  omega

lemma Sized.backed (hs : Sized D L t) : t.Backed := by
  intro n hn
  have hmost := hs.most
  obtain ⟨h1, h2⟩ := hn
  rw [hs.endAddress] at h1
  rw [hs.start] at h2
  obtain ⟨k, rfl⟩ : ∃ k, n = 0xC0000 + (0x80 + k) := ⟨n - 0xC0080, by omega⟩
  exact (hs.covered.pageBacked_iff (by omega)).mpr (hs.frames k (by omega))

lemma not_backed {n : ℕ} (ho : Overlaps n t.heap.startAddress t.heap.endAddress)
    (hn : ¬ PageBacked t.paging n) : ¬ t.Backed := fun hb => hn (hb n ho)

/-- **A fitting `expand` keeps the heap backed.** -/
lemma Sized.expand (hs : Sized D L t) (hfits : t.Fits (.expand n)) :
    t.step (.expand n) = .error .assert ∨ t.step (.expand n) = .error .noFrame ∨
      ∃ t' L', t.step (.expand n) = .ok t' ∧ Sized D L' t' := by
  obtain ⟨hn, hlast, hzero⟩ := hfits
  have hr := Heap.roundExpand_eq (n := n) (by omega)
  have hle := Heap.le_roundExpand (n := n) (by omega)
  set r := Heap.roundExpand n with hrdef
  have hr380 : r ≤ 0x380000 := by
    rw [hr]
    split <;> omega
  simp only [hs.start, hs.endAddress, hs.length] at hlast hzero
  have hadd : add32 t.heap.startAddress r = 0xC0080000 + r := by
    rw [hs.start]
    exact add32_of_lt (by omega)
  have hmax : add32 t.heap.startAddress r ≤ t.heap.maxAddress := by
    rw [hadd, hs.heap]
    change 0xC0080000 + r ≤ 0xCFFFF000
    omega
  have hmost := hs.most
  rw [step, Heap.expand, hs.length]
  by_cases hnL : n > L
  · have hloop := expandLoop_covered (h := t.heap) (i := L) (n := 2 ^ 20) hs.start hr380 (by omega)
      hs.covered (hzero.imp id fun hz k hk hlt => (hs.covered.pageBacked_iff (by omega)).mp
        (hz (0xC0000 + (0x80 + k)) ⟨by omega, by omega⟩))
    rw [if_pos hnL, ← hrdef, if_pos hmax]
    rcases hloop with hnone | ⟨s', hs', hcov, hmono, hvisit⟩
    · right; left
      rw [hnone]
      rfl
    · right; right
      rw [hs']
      refine ⟨_, r, rfl, ?_, ?_, hr380, hcov, fun k hk => ?_⟩
      · simp only [hadd]
        rw [hs.heap]
      · have := hs.least
        omega
      · -- a page of the old heap, a page the loop visits, or the page of the last byte
        by_cases hold : 0x1000 * k < L
        · exact hmono _ (hs.frames k hold)
        · by_cases hvis : L + 0x1000 * (k - L / 0x1000) < r
          · have hidx : L / 0x1000 + (k - L / 0x1000) = k := by omega
            have := hvisit (k - L / 0x1000) hvis
            rwa [hidx] at this
          · rcases hlast with h0 | hlt | hback
            · omega
            · omega
            · have hpage : (0xC0080000 + r) / 0x1000 = 0xC0000 + (0x80 + k) := by omega
              rw [hpage] at hback
              exact hmono _ ((hs.covered.pageBacked_iff (by omega)).mp hback)
  · left
    rw [if_neg hnL]
    rfl

/-- **A fitting `contract` keeps the heap backed.** -/
lemma Sized.contract (hs : Sized D L t) (hfits : t.Fits (.contract n)) :
    t.step (.contract n) = .error .assert ∨
      ∃ t' L', t.step (.contract n) = .ok t' ∧ Sized D L' t' := by
  have hr : Heap.roundContract n = _ := Heap.roundContract_eq
  simp only [Fits, hs.length] at hfits
  set r := Heap.roundContract n with hrdef
  have hmost := hs.most
  have hleast := hs.least
  rw [step, Heap.contract, hs.length]
  by_cases hnL : n < L
  · have hrL : 0x70000 ≤ r ∧ r ≤ L := by
      rw [hr, heapMinSize]
      split <;> omega
    have hadd : add32 t.heap.startAddress r = 0xC0080000 + r := by
      rw [hs.start]
      exact add32_of_lt (by omega)
    have hsub : sub32 L 0x1000 = L - 0x1000 := sub32_of_le (by omega) (by omega)
    have hfuel : L - 0x1000 ≤ r + 0x1000 * 2 ^ 20 := by omega
    obtain ⟨s', hs', hcov, hsame⟩ := contractLoop_covered (h := t.heap) hs.start
      (by omega) (by omega) hfuel hs.covered
    right
    rw [if_pos hnL, ← hrdef, hsub]
    dsimp only
    rw [hs']
    refine ⟨_, r, rfl, ?_, hrL.1, by omega, hcov, fun k hk => ?_⟩
    · simp only [hadd]
      rw [hs.heap]
    · change (entry D s' (0x80 + k)).frame ≠ 0
      rw [hsame k (by omega)]
      exact hs.frames k (by omega)
  · left
    rw [if_neg hnL]
    rfl

/-! ### From the boot -/

/-- The memory and the bitset when `kheap` is assigned. -/
lemma boot_mem {p lessThan : ℕ} {mem : ℕ → ℕ} (hp : 0x100000 ≤ p)
    (hsize : Paging.framesNeeded p ≤ nframes) (hzero : ∀ x, p ≤ x → mem x = 0)
    (hboot : Paging.boot p mem lessThan = some s) :
    ∃ D t K s₂, Paging.DirAt D ∧ t < 768 ∧ K + 256 ≤ nframes ∧ Paging.framesNeeded p = K + 256 ∧
      0x101 ≤ K ∧ Paging.Booted D t K 256 s₂ ∧ s.kernelDirectory = D ∧ s.frames = s₂.frames ∧
      ∀ x < D + 0x4000, s.mem x = s₂.mem x := by
  obtain ⟨D, t, K, s₁, s₂, hdir, ht, hKt, hK, hneed, hs₁, hb₁, hs₂, hb₂, hpl⟩ :=
    Paging.boot_booted hp hsize hzero
  have hpl₂ : s₂.placement = s₁.placement := by rw [hb₁.placement, hb₂.placement]
  obtain ⟨s₃, hs₃, hmem, _, hdir₃, hframes⟩ :=
    Paging.createHeap_booted hb₂ hdir hK hKt ht (by rw [hpl₂]; exact hpl) lessThan
  have hD : D + 0x4000 ≤ s₂.placement := by rw [hb₂.placement]; omega
  have hlow := hdir.low
  rw [Paging.boot, hs₁, Option.bind_some, hs₂, Option.bind_some, hs₃, Option.map_some,
    Option.some.injEq] at hboot
  subst hboot
  exact ⟨D, t, K, s₂, hdir, ht, hK, hneed, by omega, hb₂, hdir₃, hframes,
    fun x hx => hmem x (by omega)⟩

/-- The table of the heap area and the bitset when `kheap` is assigned. -/
lemma boot_entries {p lessThan : ℕ} {mem : ℕ → ℕ} (hp : 0x100000 ≤ p)
    (hsize : Paging.framesNeeded p ≤ nframes) (hzero : ∀ x, p ≤ x → mem x = 0)
    (hboot : Paging.boot p mem lessThan = some s) :
    ∃ D K, 0 < K ∧ K + 256 ≤ nframes ∧ s.kernelDirectory = D ∧
      s.mem (tablesAddr D 768) = D + 0x3000 ∧
      (∀ k < 1024, s.mem (D + 0x3000 + 4 * k) =
        if k < 256 then Paging.kernelWord (K + k) else 0) ∧
      (∀ f, s.frames.used f = true ↔ f < K + 256) ∧ Paging.framesNeeded p = K + 256 := by
  obtain ⟨D, t, K, s₂, -, -, hK, hneed, hlow, hb, hdir, hframes, hmem⟩ :=
    boot_mem hp hsize hzero hboot
  refine ⟨D, K, by omega, hK, hdir, ?_, fun k hk => ?_, fun f => ?_, hneed⟩
  · rw [hmem _ (by simp only [tablesAddr]; omega), hb.tables 768 (by norm_num)]
    rfl
  · rw [hmem _ (by omega), hb.heap k hk]
  · rw [hframes]
    exact hb.used f

lemma exists_boot {p : ℕ} {mem : ℕ → ℕ} (hp : 0x100000 ≤ p)
    (hsize : Paging.framesNeeded p ≤ nframes) (hzero : ∀ x, p ≤ x → mem x = 0) (lessThan : ℕ) :
    ∃ s, Paging.boot p mem lessThan = some s := by
  obtain ⟨D, t, K, s₁, s₂, hdir, ht, hKt, hK, _, hs₁, hb₁, hs₂, hb₂, hpl⟩ :=
    Paging.boot_booted hp hsize hzero
  have hpl₂ : s₂.placement = s₁.placement := by rw [hb₁.placement, hb₂.placement]
  obtain ⟨s₃, hs₃, _⟩ :=
    Paging.createHeap_booted hb₂ hdir hK hKt ht (by rw [hpl₂]; exact hpl) lessThan
  refine ⟨s₃, ?_⟩
  rw [Paging.boot, hs₁, Option.bind_some, hs₂, Option.bind_some, hs₃, Option.map_some]

/-- The heap of the boot is backed. -/
lemma boot_sized {p lessThan : ℕ} {mem : ℕ → ℕ} (hp : 0x100000 ≤ p)
    (hsize : Paging.framesNeeded p ≤ nframes) (hzero : ∀ x, p ≤ x → mem x = 0)
    (hboot : Paging.boot p mem lessThan = some s) : ∃ D, Sized D 0x80000 ⟨bootHeap, s⟩ := by
  obtain ⟨D, K, hK0, hK, hdir, htable, hentry, _, _⟩ := boot_entries hp hsize hzero hboot
  have hpage : ∀ k < 256, (entry D s k).present = true ∧ (entry D s k).frame.val = K + k := by
    intro k hk
    rw [entry, hentry k (by omega), if_pos hk]
    exact Paging.ofWord_kernelWord (by omega)
  refine ⟨D, rfl, by norm_num, by norm_num, ⟨hdir, htable, fun k hk hf => ?_⟩, fun k hk => ?_⟩
  · by_cases hk' : k < 256
    · exact (hpage k hk').1
    · rw [entry, hentry k hk, if_neg hk', Page.ofWord_zero] at hf
      exact absurd rfl hf
  · intro h0
    have := (hpage (0x80 + k) (by omega)).2
    rw [h0] at this
    change 0 = _ at this
    omega

/-- **The heap is backed over every run of fitting resizes**: from the heap that
`initialise_paging` sets up, a call never uses a null entry and never loops for ever, and when it
returns every page of the heap is present and has a frame. -/
theorem heap_backed {p lessThan : ℕ} {mem : ℕ → ℕ} (hp : 0x100000 ≤ p)
    (hsize : Paging.framesNeeded p ≤ nframes) (hzero : ∀ x, p ≤ x → mem x = 0)
    (hboot : Paging.boot p mem lessThan = some s) (as : List Resize)
    (has : Along step? Fits ⟨bootHeap, s⟩ as) :
    Along step? (fun t a => t.step a ≠ .error .nullPage ∧ t.step a ≠ .error .diverges ∧
      ∀ t', t.step a = .ok t' → t'.Backed) ⟨bootHeap, s⟩ as := by
  obtain ⟨D, hs⟩ := boot_sized hp hsize hzero hboot
  have hcases : ∀ t a, (∃ L, Sized D L t) → t.Fits a →
      t.step a = .error .assert ∨ t.step a = .error .noFrame ∨
        ∃ t' L', t.step a = .ok t' ∧ Sized D L' t' := by
    rintro t a ⟨L, hL⟩ hfits
    cases a with
    | expand n => exact hL.expand hfits
    | contract n => exact (hL.contract hfits).imp_right Or.inr
  refine along_mono (fun t a (hL : ∃ L, Sized D L t) hfits => ?_)
    (fun t a t' hL hfits ht' => ?_) ⟨_, hs⟩ has
  · rcases hcases t a hL hfits with h | h | ⟨t₁, L₁, h, hL₁⟩
    · rw [h]; simp
    · rw [h]; simp
    · rw [h]
      refine ⟨by simp, by simp, fun t' ht' => ?_⟩
      cases ht'
      exact hL₁.backed
  · rcases hcases t a hL hfits with h | h | ⟨t₁, L₁, h, hL₁⟩
    · rw [step?, h] at ht'; exact absurd ht' (by simp [Except.toOption])
    · rw [step?, h] at ht'; exact absurd ht' (by simp [Except.toOption])
    · rw [step?, h] at ht'
      cases ht'
      exact ⟨L₁, hL₁⟩

/-- An `expand` that visits one page. -/
lemma step_expand_single (hs : t.heap = { bootHeap with endAddress := 0xC0080000 + L })
    (hL : L < n) (hn : n ≤ L + 0x1000) (heven : n % 2 = 0) (hmost : L ≤ 0x380000)
    (halloc : kernelPager.alloc (0xC0080000 + L) false true t.paging = .ok s) :
    t.step? (.expand n) =
      some ⟨{ bootHeap with endAddress := 0xC0080000 + n }, s⟩ := by
  have hround : Heap.roundExpand n = n := by
    rw [Heap.roundExpand_eq (by omega), if_neg (by omega)]
  have hstart : t.heap.startAddress = 0xC0080000 := by
    rw [hs]
    exact bootHeap_startAddress
  have hend : t.heap.endAddress = 0xC0080000 + L := by rw [hs]
  have hlen : t.heap.length = L := by
    rw [Heap.length, hstart, hend, sub32_of_le (by omega) (by omega)]
    omega
  have hadd : add32 t.heap.startAddress n = 0xC0080000 + n := by
    rw [hstart]
    exact add32_of_lt (by omega)
  have hmax : add32 t.heap.startAddress n ≤ t.heap.maxAddress := by
    rw [hadd, hs]
    change 0xC0080000 + n ≤ 0xCFFFF000
    omega
  have hloop : t.heap.expandLoop kernelPager n (2 ^ 20) L t.paging = .ok s := by
    have hfirst : add32 t.heap.startAddress L = 0xC0080000 + L := by
      rw [hstart]
      exact add32_of_lt (by omega)
    have hflags : t.heap.supervisor = false ∧ (!t.heap.readonly) = true := by
      rw [hs]
      exact ⟨rfl, rfl⟩
    have hnext : add32 L 0x1000 = L + 0x1000 := add32_of_lt (by omega)
    change t.heap.expandLoop kernelPager n (1048575 + 1) L t.paging = .ok s
    rw [Heap.expandLoop, if_pos hL, hfirst, hflags.1, hflags.2, halloc, hnext]
    change t.heap.expandLoop kernelPager n (1048574 + 1) (L + 0x1000) s = .ok s
    rw [Heap.expandLoop, if_neg (by omega)]
  rw [step?, step, Heap.expand, hlen, if_pos hL, hround]
  dsimp only
  rw [if_pos hmax, hloop, hadd, hs]
  rfl

/-- The heap set up by the boot, grown by one call that fits. -/
theorem heap_backed_one_page :
    ∃ s, Paging.boot 0x100000 (fun _ => 0) 0 = some s ∧
      Along step? (fun t a => t.step a ≠ .error .nullPage ∧ t.step a ≠ .error .diverges ∧
        ∀ t', t.step a = .ok t' → t'.Backed) ⟨bootHeap, s⟩ [.expand 0x80024] := by
  obtain ⟨s, hs⟩ : ∃ s, Paging.boot 0x100000 (fun _ => 0) 0 = some s :=
    exists_boot le_rfl (by decide) (fun _ _ => rfl) 0
  obtain ⟨_, K, _, _, _, _, _, hused, _⟩ := boot_entries le_rfl (by decide) (fun _ _ => rfl) hs
  refine ⟨s, hs, heap_backed le_rfl (by decide) (fun _ _ => rfl) hs _
    ⟨⟨by norm_num, Or.inr (Or.inl ?_), Or.inl ((hused 0).mpr (by omega))⟩, fun _ _ => trivial⟩⟩
  change bootHeap.length % 0x1000 < Heap.roundExpand 0x80024 % 0x1000
  decide

/-- Two expansions that `alloc` asks for when the heap is full, for blocks of 16 and of 4060
bytes. The first leaves an end that is not on a page boundary; the second steps from there over
the page of the last 20 bytes. -/
theorem expand_leaves_hole :
    ∃ s t, Paging.boot 0x100000 (fun _ => 0) 0 = some s ∧
      run step? ⟨bootHeap, s⟩ [.expand 0x80024, .expand 0x81014] = some t ∧
      Overlaps 0xC0101 t.heap.startAddress t.heap.endAddress ∧
      ¬ PageBacked t.paging 0xC0101 ∧ ¬ t.Backed := by
  obtain ⟨s, hs⟩ : ∃ s, Paging.boot 0x100000 (fun _ => 0) 0 = some s :=
    exists_boot le_rfl (by decide) (fun _ _ => rfl) 0
  obtain ⟨D, K, hK0, hK, hdir, htable, hentry, hused, hneed⟩ :=
    boot_entries le_rfl (by decide) (fun _ _ => rfl) hs
  obtain ⟨D', hsized⟩ := boot_sized le_rfl (by decide) (fun _ _ => rfl) hs
  obtain rfl : D' = D := hsized.covered.dir.symm.trans hdir
  have hcov := hsized.covered
  have hnull : ∀ k, 256 ≤ k → k < 1024 → entry D' s k = Page.zero := by
    intro k hk hlt
    rw [entry, hentry k hlt, if_neg (by omega), Page.ofWord_zero]
  have hfirst : s.frames.firstFrame = some (K + 256) := by
    have hlt : K + 256 < nframes := by rw [← hneed]; decide
    refine Frames.firstFrame_eq_some hlt ?_ fun g hg => (hused g).mpr hg
    rw [← Bool.not_eq_true, hused]
    exact lt_irrefl _
  -- the first call gives a frame to the page behind the old end
  have h0 : (entry D' s 256).frame = 0 := by rw [hnull 256 le_rfl (by norm_num)]; rfl
  obtain ⟨e, he⟩ : ∃ e, allocFrame s.frames (entry D' s 256) false true =
      some (s.frames.setFrame ((K + 256) * 0x1000), e) ∧ e.frame ≠ 0 ∧ e.present = true := by
    refine ⟨_, allocFrame_eq h0 hfirst _ _, fun h => ?_, rfl⟩
    have hval : (Fin.ofNat (2 ^ 20) (K + 256)).val = 0 := congrArg Fin.val h
    rw [val_ofNat_of_lt (by rw [← hneed]; decide)] at hval
    omega
  obtain ⟨s₁, hs₁⟩ : ∃ s₁, s₁ = s.putPage (D' + 0x3000 + 4 * 256)
      (s.frames.setFrame ((K + 256) * 0x1000), e) := ⟨_, rfl⟩
  have halloc₁ : kernelPager.alloc (0xC0080000 + 0x80000) false true s = .ok s₁ := by
    rw [hcov.alloc_eq (k := 256) (by norm_num) (by norm_num), he.1, hs₁]
    rfl
  have hcov₁ : Covered D' s₁ := by
    rw [hs₁]
    exact hcov.putPage fun _ => he.2.2
  have he₁ : entry D' s₁ 256 = e := by rw [hs₁, entry_putPage, if_pos rfl]
  -- the second call visits that page again
  obtain ⟨s₂, hs₂⟩ : ∃ s₂, s₂ = s₁.putPage (D' + 0x3000 + 4 * 256) (s₁.frames, e) := ⟨_, rfl⟩
  have halloc₂ : kernelPager.alloc (0xC0080000 + 0x80024) false true s₁ = .ok s₂ := by
    rw [hcov₁.alloc_eq (k := 256) (by norm_num) (by norm_num), he₁, allocFrame, if_pos he.2.1, hs₂]
    rfl
  have hcov₂ : Covered D' s₂ := by
    rw [hs₂]
    exact hcov₁.putPage fun _ => he.2.2
  have hgap : ¬ PageBacked s₂ 0xC0101 := by
    rw [hcov₂.pageBacked_iff (k := 257) (by norm_num), hs₂, entry_putPage, if_neg (by norm_num),
      hs₁, entry_putPage, if_neg (by norm_num), hnull 257 (by norm_num) (by norm_num)]
    exact fun h => h rfl
  have hover : Overlaps 0xC0101 bootHeap.startAddress (0xC0080000 + 0x81014) := by
    rw [bootHeap_startAddress]
    exact ⟨by norm_num, by norm_num⟩
  refine ⟨s, ⟨{ bootHeap with endAddress := 0xC0080000 + 0x81014 }, s₂⟩, hs, ?_, hover, hgap,
    not_backed hover hgap⟩
  have hstep₁ : step? ⟨bootHeap, s⟩ (.expand 0x80024) =
      some ⟨{ bootHeap with endAddress := 0xC0080000 + 0x80024 }, s₁⟩ :=
    step_expand_single (L := 0x80000) rfl (by norm_num) (by norm_num) (by norm_num) (by norm_num)
      halloc₁
  have hstep₂ : step? ⟨{ bootHeap with endAddress := 0xC0080000 + 0x80024 }, s₁⟩ (.expand 0x81014) =
      some ⟨{ bootHeap with endAddress := 0xC0080000 + 0x81014 }, s₂⟩ :=
    step_expand_single (L := 0x80024) rfl (by norm_num) (by norm_num) (by norm_num) (by norm_num)
      halloc₂
  rw [run_cons, hstep₁, Option.bind_some, run_cons, hstep₂, Option.bind_some, run_nil]

end HeapPages

end Matanos
