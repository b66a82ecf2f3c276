import Matanos.Paging.Backing
import Matanos.Paging.Clone

/-!
The physical address of a cloned directory, whatever frames the pages of the heap have got.

`clone_directory` takes the physical address of the first page of the directory and adds the offset
of `tablesPhysical`, which lies on the second page.

* `Growth`, `HeapPages.grow?`: the heap grows, or a page outside of it gets a frame;
* `Paging.kmallocPhys`: the physical address that `kmalloc_int` reports; `CloneEnv.Served`: what the
  calls of `kmalloc_ap` return;
* `Filled`: the pages of the heap area that have frames, and the frames that are taken;
  `Filled.expandLoop`: the loop of `expand` gives the next frames to the next pages;
* `InOrder`: the next frame is the one behind that of the last page;
* `cloned_directory_loads_tables`: when the two pages of the directory have frames in a row.
-/

namespace Matanos

open Lib

/-- A call of `expand`, or of `alloc_frame` on an entry that is not one of the heap. -/
inductive Growth where
  | expand (newSize : ℕ)
  | other (page : Page) (isKernel isWriteable : Bool)

/-- The `*phys` of `kmalloc_int`, when there is a heap. -/
def Paging.kmallocPhys (s : Paging) (addr : ℕ) : ℕ :=
  let (ptr, _) := s.getPagePtr addr false s.kernelDirectory
  (Page.ofWord (s.mem ptr)).frame * 0x1000 + (addr &&& 0xFFF)

namespace HeapPages

/-- One step, when it returns. -/
def grow? (t : HeapPages) : Growth → Option HeapPages
  | .expand n => t.step? (.expand n)
  | .other page isKernel isWriteable =>
      (allocFrame t.paging.frames page isKernel isWriteable).map fun (frames, _) =>
        { t with paging := { t.paging with frames := frames } }

/-- The frame of the page `k` of the heap area, 0 if there is none. -/
def frameAt (t : HeapPages) (k : ℕ) : ℕ := (entry t.paging.kernelDirectory t.paging k).frame

/-- When `expand` reaches the first page without a frame, the first free frame is the one behind that
of the page before it. -/
def InOrder (t : HeapPages) : Growth → Prop
  | .expand n =>
      ∀ k, t.frameAt k ≠ 0 → t.frameAt (k + 1) = 0 →
        0x1000 * (0xC0000 + (k + 1)) < t.heap.startAddress + Heap.roundExpand n →
        t.paging.frames.firstFrame = some (t.frameAt k + 1)
  | .other _ _ _ => True

/-- The `physicalAddr` of the directory is the address to which the kernel directory maps its
`tablesPhysical`. -/
def LoadsTables (t : HeapPages) (s : Spaces) (dir : ℕ) : Prop :=
  translate t.paging.mem (tablesPhysicalAddr t.paging.kernelDirectory 0) (tablesPhysicalAddr dir 0) =
    some (s.mem (physicalAddrAddr dir))

end HeapPages

/-- The directory is in the heap and starts a page, and its physical address is that of the page. The
tables start pages outside of it. -/
structure CloneEnv.Served (env : CloneEnv) (t : HeapPages) : Prop where
  aligned : env.dir % 0x1000 = 0
  start : t.heap.startAddress ≤ env.dir
  stop : env.dir + pageDirectorySize ≤ t.heap.endAddress
  phys : env.dirPhys = t.paging.kmallocPhys env.dir
  tables : ∀ i, env.table i % 0x1000 = 0 ∧
    (env.table i + pageTableSize ≤ env.dir ∨ env.dir + pageDirectorySize ≤ env.table i)

/-! ### `physicalAddr` -/

namespace Spaces

variable {s s' : Spaces} {src table n i x : ℕ} {env : CloneEnv}

lemma cloneEntries_word (hx : ∀ k < n, x ≠ table + 4 * k)
    (hok : cloneEntries src table n s = some s') : s'.mem x = s.mem x := by
  induction n generalizing s' with
  | zero => rw [← Option.some.inj hok]
  | succ n ih =>
      rw [cloneEntries, Option.bind_eq_some_iff] at hok
      obtain ⟨s₁, hs₁, hentry⟩ := hok
      rw [← ih (fun k hk => hx k (by omega)) hs₁]
      rw [cloneEntry] at hentry
      split_ifs at hentry
      · obtain ⟨r, -, rfl⟩ := Option.map_eq_some_iff.mp hentry
        exact Function.update_of_ne (hx n (Nat.lt_succ_self n)) _ _
      · rw [← Option.some.inj hentry]

/-- A turn of the loop leaves `physicalAddr`, though the clear of a table runs over its end. -/
lemma cloneSlot_physicalAddr {t : HeapPages} (henv : env.Served t) (hi : i < 1024)
    (hok : cloneSlot src env i s = some s') :
    s'.mem (physicalAddrAddr env.dir) = s.mem (physicalAddrAddr env.dir) := by
  have hslot : ∀ (s : Spaces) (table phys : ℕ),
      (s.setSlot env.dir i table phys).mem (physicalAddrAddr env.dir)
        = s.mem (physicalAddrAddr env.dir) := by
    intro s table phys
    simp only [setSlot, physicalAddrAddr, tablesAddr, tablesPhysicalAddr]
    rw [Function.update_of_ne (by omega), Function.update_of_ne (by omega)]
  rw [cloneSlot] at hok
  split_ifs at hok
  · rw [← Option.some.inj hok]
  · rw [← Option.some.inj hok, hslot]
  · obtain ⟨s₁, hs₁, rfl⟩ := Option.map_eq_some_iff.mp hok
    obtain ⟨hpage, hapart⟩ := henv.tables i
    have haligned := henv.aligned
    simp only [pageTableSize, pageDirectorySize] at hapart
    rw [hslot, cloneEntries_word (fun k hk => by rw [physicalAddrAddr]; omega) hs₁]
    exact if_neg (by simp only [physicalAddrAddr, pageDirectorySize]; omega)

/-- **The `physicalAddr` of the clone** is the physical address of its first page, with the offset. -/
lemma cloneDirectory_physicalAddr {t : HeapPages} (henv : env.Served t)
    (hok : cloneDirectory src env s = some s') :
    s'.mem (physicalAddrAddr env.dir) = env.dirPhys + 0x1000 := by
  have hloop : ∀ n ≤ 1024, ∀ s', cloneSlots src env n (s.blankDirectory env) = some s' →
      s'.mem (physicalAddrAddr env.dir) = env.dirPhys + 0x1000 := by
    intro n
    induction n with
    | zero =>
        rintro - s' hs'
        rw [← Option.some.inj hs']
        simp only [blankDirectory, Function.update_self, tablesPhysicalAddr]
        omega
    | succ n ih =>
        intro hn s' hs'
        rw [cloneSlots, Option.bind_eq_some_iff] at hs'
        obtain ⟨s₁, hs₁, hslot⟩ := hs'
        rw [cloneSlot_physicalAddr henv (by omega) hslot]
        exact ih (by omega) s₁ hs₁
  exact hloop 1024 le_rfl s' hok

end Spaces

/-! ### The frames of the pages -/

namespace HeapPages

/-- The first `K` pages of the heap area have frames, the others have none, and the frames below `m`
are taken. -/
structure Filled (D K m : ℕ) (s : Paging) : Prop extends Covered D s where
  aligned : D % 0x1000 = 0
  tablePhys : s.mem (tablesPhysicalAddr D 768) = D + 0x3000 + 7
  behind : ∀ i, 768 < i → i < 1024 → s.mem (tablesAddr D i) = 0
  pages : K ≤ 1024
  low : ∀ k < K, (entry D s k).frame ≠ 0
  high : ∀ k, K ≤ k → k < 1024 → (entry D s k).frame = 0
  used : ∀ f, s.frames.used f = true ↔ f < m
  pos : 0 < m

/-- `s'` comes from `s` by giving the next frames to the next pages. -/
structure Extended (D K m K' m' : ℕ) (s s' : Paging) : Prop where
  filled : Filled D K' m' s'
  more : K ≤ K'
  kept : ∀ k < K, entry D s' k = entry D s k
  next : ∀ k, K ≤ k → k < K' → (entry D s' k).frame.val = m + (k - K)
  count : m' = m + (K' - K)

variable {D K m K' m' k i n new : ℕ} {s s' : Paging}

lemma Extended.refl (h : Filled D K m s) : Extended D K m K m s s :=
  ⟨h, le_rfl, fun _ _ => rfl, fun k h1 h2 => by omega, by omega⟩

lemma Extended.trans {K'' m'' : ℕ} {s'' : Paging} (h : Extended D K m K' m' s s')
    (h' : Extended D K' m' K'' m'' s' s'') : Extended D K m K'' m'' s s'' := by
  have hmore := h.more
  have hmore' := h'.more
  have hcount := h.count
  have hcount' := h'.count
  refine ⟨h'.filled, by omega, fun k hk => ?_, fun k h1 h2 => ?_, by omega⟩
  · rw [h'.kept k (by omega)]
    exact h.kept k hk
  · by_cases hk : k < K'
    · rw [h'.kept k hk]
      exact h.next k h1 hk
    · rw [h'.next k (by omega) h2]
      omega

/-- A change of one entry and of the bitset. -/
lemma Filled.putPage (h : Filled D K m s) {r : Frames × Page} (hk : k < 1024)
    (hpresent : r.2.frame ≠ 0 → r.2.present = true) (hK' : K' ≤ 1024) (hm' : 0 < m')
    (hlow : ∀ j < K', j ≠ k → j < K) (hhigh : ∀ j, K' ≤ j → K ≤ j)
    (hframe : r.2.frame ≠ 0 ↔ k < K') (hused : ∀ f, r.1.used f = true ↔ f < m') :
    Filled D K' m' (s.putPage (D + 0x3000 + 4 * k) r) := by
  refine ⟨h.toCovered.putPage hpresent, h.aligned, ?_, fun i h1 h2 => ?_, hK', fun j hj => ?_,
    fun j h1 h2 => ?_, hused, hm'⟩
  · simp only [Paging.putPage, Paging.mem_write, tablesPhysicalAddr]
    rw [Function.update_of_ne (by omega)]
    exact h.tablePhys
  · simp only [Paging.putPage, Paging.mem_write, tablesAddr]
    rw [Function.update_of_ne (by omega)]
    exact h.behind i h1 h2
  · rw [entry_putPage]
    split_ifs with hjk
    · exact hframe.mpr (hjk ▸ hj)
    · exact h.low j (hlow j hj hjk)
  · rw [entry_putPage]
    split_ifs with hjk
    · exact not_not.mp fun hne => absurd (hframe.mp hne) (by omega)
    · exact h.high j (hhigh j h1) h2

/-- The first free frame. -/
lemma Filled.firstFrame_eq (h : Filled D K m s) {f : ℕ} (hfirst : s.frames.firstFrame = some f) :
    f = m := by
  obtain ⟨-, hclear, hbelow⟩ := Frames.firstFrame_spec hfirst
  rcases Nat.lt_trichotomy f m with hlt | heq | hgt
  · rw [(h.used f).mpr hlt] at hclear
    exact absurd hclear (by decide)
  · exact heq
  · exact absurd ((h.used m).mp (hbelow m hgt)) (lt_irrefl m)

/-- **`alloc_frame` on the next page or on one before it.** -/
lemma Filled.visit (h : Filled D K m s) {address : ℕ} {b w : Bool} (hk : k ≤ K)
    (haddr : address / 0x1000 = 0xC0000 + k)
    (hok : kernelPager.alloc address b w s = .ok s') :
    ∃ K' m', Extended D K m K' m' s s' ∧ k < K' ∧ K' ≤ K + 1 ∧ (K < K' → k = K) := by
  by_cases htop : k < 1024
  · rw [h.toCovered.alloc_eq htop haddr] at hok
    by_cases hframe : k < K
    · -- the page has a frame
      have hne := h.low k hframe
      rw [allocFrame, if_pos hne] at hok
      obtain rfl : s.putPage (D + 0x3000 + 4 * k) (s.frames, entry D s k) = s' := Except.ok.inj hok
      have hsame : ∀ j, entry D (s.putPage (D + 0x3000 + 4 * k) (s.frames, entry D s k)) j
          = entry D s j := by
        intro j
        rw [entry_putPage]
        split_ifs with hj
        · rw [hj]
        · rfl
      refine ⟨K, m, ⟨h.putPage htop (h.present k htop) h.pages h.pos (fun _ hj _ => hj)
        (fun _ => id) (iff_of_true hne hframe) h.used, le_rfl, fun j _ => hsame j,
        fun j h1 h2 => by omega, by omega⟩, hframe, Nat.le_succ K, fun h => absurd h (lt_irrefl K)⟩
    · obtain rfl : k = K := by omega
      have hzero := h.high k le_rfl htop
      cases hfirst : s.frames.firstFrame with
      | none =>
          rw [allocFrame, if_neg (not_not.mpr hzero), hfirst] at hok
          exact absurd hok (by simp)
      | some f =>
          obtain rfl := h.firstFrame_eq hfirst
          have hval := val_ofNat_of_lt (Frames.firstFrame_spec hfirst).1
          have hpos := h.pos
          have hne : Fin.ofNat (2 ^ 20) f ≠ 0 := by
            intro h0
            rw [h0] at hval
            change 0 = f at hval
            omega
          rw [allocFrame_eq hzero hfirst] at hok
          obtain rfl := Except.ok.inj hok
          refine ⟨k + 1, f + 1, ⟨h.putPage htop (fun _ => rfl) htop (Nat.succ_pos f)
            (fun j h1 h2 => by omega) (fun j hj => by omega)
            (iff_of_true hne (Nat.lt_succ_self k)) (Paging.used_setFrame_succ h.used),
            Nat.le_succ k, fun j hj => ?_, fun j h1 h2 => ?_, by omega⟩, Nat.lt_succ_self k,
            le_rfl, fun _ => rfl⟩
          · rw [entry_putPage, if_neg (by omega)]
          · obtain rfl : j = k := by omega
            rw [entry_putPage, if_pos rfl]
            exact hval.trans (by omega)
  · -- the table of the page is not there
    have hpages := h.pages
    have hidx : address / 0x1000 / 1024 = 769 := by omega
    have hnull : s.mem (tablesAddr s.kernelDirectory (address / 0x1000 / 1024)) = 0 := by
      rw [h.dir, hidx]
      exact h.behind 769 (by norm_num) (by norm_num)
    simp only [kernelPager, Paging.getPagePtr_null hnull, if_true] at hok
    exact absurd hok (by simp)

/-- **The loop of `expand`** gives the next frames to the next pages. -/
lemma Filled.expandLoop {h : Heap} (hs : Filled D K m s) (hstart : h.startAddress = 0xC0080000)
    (hi : 0x80 + i / 0x1000 ≤ K) (hok : h.expandLoop kernelPager new n i s = .ok s') :
    ∃ K' m', Extended D K m K' m' s s' ∧ 0x80 + new / 0x1000 ≤ K' ∧
      (K < K' → 0x1000 * K < 0x80000 + new) := by
  have hpages := hs.pages
  have hdone : ¬ i < new → 0x80 + new / 0x1000 ≤ K := fun hlt => by
    have hle : new / 0x1000 ≤ i / 0x1000 := Nat.div_le_div_right (by omega)
    omega
  induction n generalizing K m i s with
  | zero =>
      rw [Heap.expandLoop] at hok
      split_ifs at hok with hlt
      obtain rfl := Except.ok.inj hok
      exact ⟨K, m, Extended.refl hs, hdone hlt, fun h => absurd h (lt_irrefl K)⟩
  | succ n ih =>
      rw [Heap.expandLoop] at hok
      split_ifs at hok with hlt
      · have hadd : add32 h.startAddress i = 0xC0080000 + i := by
          rw [hstart]
          exact add32_of_lt (by omega)
        have hnext : add32 i 0x1000 = i + 0x1000 := add32_of_lt (by omega)
        rw [hadd, hnext] at hok
        cases halloc : kernelPager.alloc (0xC0080000 + i) h.supervisor (!h.readonly) s with
        | error e =>
            rw [halloc] at hok
            exact absurd hok (by simp [Except.bind])
        | ok s₁ =>
            rw [halloc] at hok
            obtain ⟨K₁, m₁, hext, hk, -, hnew⟩ := hs.visit hi (by omega) halloc
            have hpages₁ := hext.filled.pages
            obtain ⟨K', m', hext', hreach, hnew'⟩ := ih hext.filled (by omega) hok hpages₁ (fun hge => by
              have hle : new / 0x1000 ≤ (i + 0x1000) / 0x1000 := Nat.div_le_div_right (by omega)
              omega)
            refine ⟨K', m', hext.trans hext', hreach, fun hlarger => ?_⟩
            rcases Nat.lt_or_ge K K₁ with h₁ | h₁
            · have := hnew h₁
              omega
            · obtain rfl : K₁ = K := le_antisymm h₁ hext.more
              exact hnew' hlarger
      · obtain rfl := Except.ok.inj hok
        exact ⟨K, m, Extended.refl hs, hdone hlt, fun h => absurd h (lt_irrefl K)⟩

/-! ### Runs -/

/-- The heap of the boot with `L` bytes, whose pages have frames but for that of the end. -/
structure Reached (D L K m : ℕ) (t : HeapPages) : Prop where
  heap : t.heap = { bootHeap with endAddress := 0xC0080000 + L }
  filled : Filled D K m t.paging
  stop : 0x80 + L / 0x1000 ≤ K

/-- The pages below `K` have the frames from `F` on, in their order. -/
def Consecutive (F D K : ℕ) (t : HeapPages) : Prop := ∀ k < K, (entry D t.paging k).frame.val = F + k

variable {L F : ℕ} {t t' : HeapPages} {a : Growth}

lemma Reached.startAddress (h : Reached D L K m t) : t.heap.startAddress = 0xC0080000 := by
  rw [h.heap]
  exact bootHeap_startAddress

/-- The frame of another page. -/
lemma Reached.other {page : Page} {b w : Bool} (h : Reached D L K m t)
    (hok : t.grow? (.other page b w) = some t') :
    ∃ m', Reached D L K m' t' ∧ t'.paging.mem = t.paging.mem := by
  obtain ⟨⟨frames, p⟩, halloc, rfl⟩ := Option.map_eq_some_iff.mp hok
  have hf := h.filled
  by_cases hframe : page.frame = 0
  · rw [allocFrame, if_neg (not_not.mpr hframe)] at halloc
    obtain ⟨f, hfirst, hres⟩ := Option.map_eq_some_iff.mp halloc
    obtain rfl := hf.firstFrame_eq hfirst
    obtain rfl := (Prod.mk.inj hres).1
    exact ⟨f + 1, ⟨h.heap, { hf with
      used := Paging.used_setFrame_succ hf.used
      pos := Nat.succ_pos f }, h.stop⟩, rfl⟩
  · rw [allocFrame, if_pos hframe] at halloc
    obtain rfl := (Prod.mk.inj (Option.some.inj halloc)).1
    exact ⟨m, ⟨h.heap, { hf with }, h.stop⟩, rfl⟩

/-- What `expand` does to the pages. -/
lemma Reached.expand (h : Reached D L K m t) (hok : t.grow? (.expand n) = some t') :
    ∃ K' m', Reached D (Heap.roundExpand n) K' m' t' ∧
      Extended D K m K' m' t.paging t'.paging ∧
      (K < K' → 0x1000 * K < 0x80000 + Heap.roundExpand n) := by
  change (t.step (.expand n)).toOption = some t' at hok
  have hpages := h.filled.pages
  have hstop := h.stop
  have hlength : t.heap.length = L := by
    rw [Heap.length, h.startAddress, h.heap]
    exact (sub32_of_le (Nat.le_add_right _ _) (by omega)).trans (Nat.add_sub_cancel_left _ _)
  obtain ⟨new, hnew⟩ : ∃ new, Heap.roundExpand n = new := ⟨_, rfl⟩
  rw [HeapPages.step, Heap.expand, hlength, hnew] at hok
  dsimp only at hok
  split_ifs at hok with hlarger hmax
  · cases hloop : t.heap.expandLoop kernelPager new (2 ^ 20) L t.paging with
    | error e =>
        rw [hloop] at hok
        exact absurd hok (by simp [Except.map, Except.toOption])
    | ok s =>
        rw [hloop] at hok
        obtain rfl := Option.some.inj hok
        obtain ⟨K', m', hext, hreach, hfirst⟩ := h.filled.expandLoop h.startAddress hstop hloop
        have hpages' := hext.filled.pages
        rw [hnew]
        refine ⟨K', m', ⟨?_, hext.filled, hreach⟩, hext, hfirst⟩
        have hadd : add32 t.heap.startAddress new = 0xC0080000 + new := by
          rw [h.startAddress]
          exact add32_of_lt (by omega)
        rw [hadd, h.heap]
  all_goals exact absurd hok (by simp [Except.map, Except.toOption])

/-- **A step keeps the pages that have frames.** -/
lemma Reached.step (h : Reached D L K m t) (hok : t.grow? a = some t') :
    ∃ L' K' m', Reached D L' K' m' t' ∧ K ≤ K' ∧
      ∀ k < K, entry D t'.paging k = entry D t.paging k := by
  cases a with
  | expand n =>
      obtain ⟨K', m', hreached, hext, -⟩ := h.expand hok
      exact ⟨_, K', m', hreached, hext.more, hext.kept⟩
  | other page b w =>
      obtain ⟨m', hreached, hmem⟩ := h.other hok
      exact ⟨L, K, m', hreached, le_rfl, fun k _ => by rw [entry, hmem, entry]⟩

/-- **A run keeps the pages that have frames.** -/
lemma Reached.of_run {as : List Growth} (h : Reached D L K m t) (hrun : run grow? t as = some t') :
    ∃ L' K' m', Reached D L' K' m' t' ∧ K ≤ K' ∧
      ∀ k < K, entry D t'.paging k = entry D t.paging k := by
  have hstep : ∀ t₁ a t₂, (∃ L₁ K₁ m₁, Reached D L₁ K₁ m₁ t₁ ∧ K ≤ K₁ ∧
        ∀ k < K, entry D t₁.paging k = entry D t.paging k) → True → grow? t₁ a = some t₂ →
      ∃ L₂ K₂ m₂, Reached D L₂ K₂ m₂ t₂ ∧ K ≤ K₂ ∧
        ∀ k < K, entry D t₂.paging k = entry D t.paging k := by
    rintro t₁ a t₂ ⟨L₁, K₁, m₁, h₁, hmore₁, hkept₁⟩ - hok
    obtain ⟨L₂, K₂, m₂, h₂, hmore₂, hkept₂⟩ := h₁.step hok
    exact ⟨L₂, K₂, m₂, h₂, hmore₁.trans hmore₂, fun k hk =>
      (hkept₂ k (by omega)).trans (hkept₁ k hk)⟩
  exact run_preserves hstep ⟨L, K, m, h, le_rfl, fun _ _ => rfl⟩
    (along_of_forall fun _ _ => trivial) hrun

lemma Reached.frameAt_eq (h : Reached D L K m t) : t.frameAt k = (entry D t.paging k).frame := by
  rw [frameAt, h.filled.dir]

/-- **In order, the frames stay consecutive.** -/
lemma Consecutive.step (hc : Consecutive F D K t) (h : Reached D L K m t) (horder : t.InOrder a)
    (hok : t.grow? a = some t') :
    ∃ L' K' m', Reached D L' K' m' t' ∧ Consecutive F D K' t' := by
  cases a with
  | other page b w =>
      obtain ⟨m', hreached, hmem⟩ := h.other hok
      refine ⟨L, K, m', hreached, fun k hk => ?_⟩
      rw [entry, hmem]
      exact hc k hk
  | expand n =>
      obtain ⟨K', m', hreached, hext, hnew⟩ := h.expand hok
      refine ⟨_, K', m', hreached, fun k hk => ?_⟩
      by_cases hold : k < K
      · rw [hext.kept k hold]
        exact hc k hold
      · have hpages' := hext.filled.pages
        have hstop := h.stop
        have hprev : t.frameAt (K - 1) = F + (K - 1) := h.frameAt_eq.trans (hc (K - 1) (by omega))
        have hlast : t.frameAt (K - 1) ≠ 0 := by
          rw [h.frameAt_eq]
          exact fun h0 => h.filled.low (K - 1) (by omega) (Fin.ext h0)
        have hnext : t.frameAt (K - 1 + 1) = 0 := by
          rw [h.frameAt_eq, h.filled.high _ (by omega) (by omega)]
          rfl
        have hfirst := horder (K - 1) hlast hnext (by
          rw [h.startAddress]
          have := hnew (by omega)
          omega)
        have hm := h.filled.firstFrame_eq hfirst
        rw [hext.next k (by omega) hk]
        omega

/-- **A run in order** keeps them consecutive. -/
lemma Consecutive.of_run {as : List Growth} (hc : Consecutive F D K t) (h : Reached D L K m t)
    (horder : Along grow? InOrder t as) (hrun : run grow? t as = some t') :
    ∃ L' K' m', Reached D L' K' m' t' ∧ Consecutive F D K' t' := by
  have hstep : ∀ t₁ a t₂, (∃ L₁ K₁ m₁, Reached D L₁ K₁ m₁ t₁ ∧ Consecutive F D K₁ t₁) →
      InOrder t₁ a → grow? t₁ a = some t₂ →
      ∃ L₂ K₂ m₂, Reached D L₂ K₂ m₂ t₂ ∧ Consecutive F D K₂ t₂ := by
    rintro t₁ a t₂ ⟨L₁, K₁, m₁, h₁, hc₁⟩ horder₁ hok
    exact hc₁.step h₁ horder₁ hok
  exact run_preserves hstep ⟨L, K, m, h, hc⟩ horder hrun

/-- The heap of the boot. -/
lemma boot_reached {p lessThan : ℕ} {mem : ℕ → ℕ} {b : Paging} (hp : 0x100000 ≤ p)
    (hsize : Paging.framesNeeded p ≤ nframes) (hzero : ∀ x, p ≤ x → mem x = 0)
    (hboot : Paging.boot p mem lessThan = some b) :
    ∃ D F, Reached D 0x80000 256 (F + 256) ⟨bootHeap, b⟩ ∧ Consecutive F D 256 ⟨bootHeap, b⟩ ∧
      F + 256 = Paging.framesNeeded p := by
  obtain ⟨D, j, F, s₂, hdir, hj, hF, hneed, hlow, hb, hkd, hframes, hmem⟩ :=
    boot_mem hp hsize hzero hboot
  have hentry : ∀ k < 1024, entry D b k = Page.ofWord (if k < 256 then Paging.kernelWord (F + k) else 0) := by
    intro k hk
    rw [entry, hmem _ (by omega), hb.heap k hk]
  have hframe : ∀ k < 256, (entry D b k).present = true ∧ (entry D b k).frame.val = F + k := by
    intro k hk
    rw [hentry k (by omega), if_pos hk]
    exact Paging.ofWord_kernelWord (by omega)
  have hslot : ∀ i, Paging.slot D j i ≠ 0 → i = 768 ∨ i < j := by
    intro i hi
    rw [Paging.slot] at hi
    split_ifs at hi with h1 h2
    · exact Or.inl h1
    · exact Or.inr h2
    · exact absurd rfl hi
  refine ⟨D, F, ⟨rfl, ⟨⟨hkd, ?_, fun k hk hne => ?_⟩, hdir.aligned, ?_, fun i h1 h2 => ?_, by norm_num,
    fun k hk h0 => ?_, fun k h1 h2 => ?_, fun f => ?_, by omega⟩, by norm_num⟩, fun k hk => ?_,
    hneed.symm⟩
  · rw [hmem _ (by simp only [tablesAddr]; omega), hb.tables 768 (by norm_num)]
    rfl
  · by_cases hk' : k < 256
    · exact (hframe k hk').1
    · rw [hentry k hk, if_neg hk', Page.ofWord_zero] at hne
      exact absurd rfl hne
  · rw [hmem _ (by simp only [tablesPhysicalAddr]; omega), hb.phys 768 (by norm_num)]
    exact if_neg (by simp [Paging.slot])
  · rw [hmem _ (by simp only [tablesAddr]; omega), hb.tables i h2]
    by_contra hne
    have := hslot i hne
    omega
  · have hval := (hframe k hk).2
    rw [h0] at hval
    change 0 = F + k at hval
    omega
  · rw [hentry k h2, if_neg (by omega), Page.ofWord_zero]
    rfl
  · rw [hframes]
    exact hb.used f
  · exact (hframe k hk).2

/-- What the processor does with the address of a page that has a frame. -/
lemma Filled.translate_eq (h : Filled D K m s) (hk : k < K) {v : ℕ} (hv : v / 0x1000 = 0xC0000 + k) :
    translate s.mem (tablesPhysicalAddr s.kernelDirectory 0) v =
      some ((entry D s k).frame * 0x1000 + v % 0x1000) := by
  have hpages := h.pages
  have haligned := h.aligned
  have hpde : s.mem (tablesPhysicalAddr s.kernelDirectory 0 + 4 * (v / 0x400000)) = D + 0x3000 + 7 := by
    have hidx : v / 0x400000 = 768 := by omega
    rw [h.dir, hidx, ← h.tablePhys]
    rfl
  have hbase : (D + 0x3000 + 7) / 0x1000 * 0x1000 + 4 * (v / 0x1000 % 1024) = D + 0x3000 + 4 * k := by
    omega
  have hpresent := h.present k (by omega) (h.low k hk)
  have hodd : (D + 0x3000 + 7) % 2 = 1 := by omega
  rw [translate]
  simp only [hpde, hbase]
  exact if_pos ⟨hodd, hpresent⟩

/-- What `kmalloc_int` reports for such an address. -/
lemma Filled.kmallocPhys_eq (h : Filled D K m s) (hk : k < K) {v : ℕ}
    (hv : v / 0x1000 = 0xC0000 + k) :
    s.kmallocPhys v = (entry D s k).frame * 0x1000 + v % 0x1000 := by
  have hpages := h.pages
  have hmask : v &&& 0xFFF = v % 0x1000 := Nat.and_two_pow_sub_one_eq_mod v 12
  rw [Paging.kmallocPhys, h.toCovered.getPagePtr_eq (by omega) hv, hmask]
  rfl

/-- **The physical address of a clone** is right when the second page of the directory has the frame
behind that of the first. -/
lemma Reached.loadsTables_iff {K' m' L' : ℕ} {src : ℕ} {env : CloneEnv} {u u' : Spaces}
    (h : Reached D L K m t) (h' : Reached D L' K' m' t') (hmore : K ≤ K')
    (hkept : ∀ k < K, entry D t'.paging k = entry D t.paging k) (henv : env.Served t)
    (hok : u.cloneDirectory src env = some u') (hk : env.dir = 0xC0000000 + 0x1000 * k) :
    k + 1 < K ∧ (LoadsTables t' u' env.dir ↔ t.frameAt (k + 1) = t.frameAt k + 1) := by
  have hend := henv.stop
  have hstop := h.stop
  rw [h.heap] at hend
  simp only [pageDirectorySize] at hend
  have hlt : k + 1 < K := by omega
  refine ⟨hlt, ?_⟩
  have hphys : env.dirPhys = (entry D t.paging k).frame * 0x1000 := by
    rw [henv.phys, h.filled.kmallocPhys_eq (k := k) (by omega) (by omega)]
    omega
  have htrans := h'.filled.translate_eq (k := k + 1) (v := tablesPhysicalAddr env.dir 0) (by omega)
    (by simp only [tablesPhysicalAddr]; omega)
  have hoffset : tablesPhysicalAddr env.dir 0 % 0x1000 = 0 := by
    simp only [tablesPhysicalAddr]
    omega
  rw [LoadsTables, htrans, Spaces.cloneDirectory_physicalAddr henv hok, hphys, hoffset,
    hkept (k + 1) hlt, h.frameAt_eq, h.frameAt_eq, Option.some.injEq]
  omega

/-- From the boot on, with heap pages and others getting frames in any order: the `physicalAddr` of a
cloned directory is the address to which the kernel directory maps its `tablesPhysical` if and only
if the second page of the directory has the frame behind that of the first. So it is if every page that
the heap has got came with the frame behind that of the page before it. -/
theorem cloned_directory_loads_tables {p lessThan : ℕ} {mem : ℕ → ℕ} {b : Paging}
    (hp : 0x100000 ≤ p) (hsize : Paging.framesNeeded p ≤ nframes) (hzero : ∀ x, p ≤ x → mem x = 0)
    (hboot : Paging.boot p mem lessThan = some b) {as bs : List Growth} {t t' : HeapPages}
    (hrun : run grow? ⟨bootHeap, b⟩ as = some t) (hrun' : run grow? t bs = some t') {src : ℕ}
    {env : CloneEnv} {u u' : Spaces} (henv : env.Served t)
    (hok : u.cloneDirectory src env = some u') :
    (LoadsTables t' u' env.dir ↔
        t.frameAt ((env.dir - kheapStart) / 0x1000 + 1)
          = t.frameAt ((env.dir - kheapStart) / 0x1000) + 1) ∧
      (Along grow? InOrder ⟨bootHeap, b⟩ as → LoadsTables t' u' env.dir) := by
  obtain ⟨D, F, hreached, hconsecutive, -⟩ := boot_reached hp hsize hzero hboot
  obtain ⟨L, K, m, ht, -⟩ := hreached.of_run hrun
  obtain ⟨L', K', m', ht', hmore, hkept⟩ := ht.of_run hrun'
  have hlo := henv.start
  have haligned := henv.aligned
  rw [ht.startAddress] at hlo
  obtain ⟨k, hk⟩ : ∃ k, env.dir = 0xC0000000 + 0x1000 * k := ⟨(env.dir - 0xC0000000) / 0x1000, by omega⟩
  have hidx : (env.dir - kheapStart) / 0x1000 = k := by
    rw [hk, kheapStart]
    omega
  obtain ⟨hlt, hiff⟩ := ht.loadsTables_iff ht' hmore hkept henv hok hk
  rw [hidx]
  refine ⟨hiff, fun horder => hiff.mpr ?_⟩
  obtain ⟨L₁, K₁, m₁, ht₁, hc⟩ := hconsecutive.of_run hreached horder hrun
  have hlt₁ : k + 1 < K₁ := by
    by_contra hge
    have hpages := ht.filled.pages
    exact ht.filled.low (k + 1) hlt (ht₁.filled.high (k + 1) (by omega) (by omega))
  rw [ht.frameAt_eq, ht.frameAt_eq, hc (k + 1) hlt₁, hc k (by omega)]
  omega

/-! ### Two runs -/

/-- An expansion by one page, when a frame is free. -/
lemma Reached.expand_page (h : Reached D L K m t) (hL : L = 0x1000 * (K - 0x80)) (hK : K < 1024)
    (hm : m < nframes) :
    ∃ t', t.grow? (.expand (L + 0x1000)) = some t' ∧ Reached D (L + 0x1000) (K + 1) (m + 1) t' ∧
      Extended D K m (K + 1) (m + 1) t.paging t'.paging := by
  have hstop := h.stop
  have hfirst : t.paging.frames.firstFrame = some m := by
    refine Frames.firstFrame_eq_some hm ?_ fun g hg => (h.filled.used g).mpr hg
    rw [← Bool.not_eq_true, h.filled.used]
    exact lt_irrefl m
  have haddr : (0xC0080000 + L) / 0x1000 = 0xC0000 + K := by omega
  obtain ⟨s, hs⟩ : ∃ s, kernelPager.alloc (0xC0080000 + L) false true t.paging = .ok s := by
    rw [h.filled.toCovered.alloc_eq hK haddr,
      allocFrame_eq (h.filled.high K le_rfl hK) hfirst]
    exact ⟨_, rfl⟩
  obtain ⟨K', m', hext, hlt, hle, -⟩ := h.filled.visit le_rfl haddr hs
  obtain rfl : K' = K + 1 := by omega
  have hcount := hext.count
  obtain rfl : m' = m + 1 := by omega
  exact ⟨_, step_expand_single h.heap (by omega) le_rfl (by omega) (by omega) hs,
    ⟨rfl, hext.filled, by omega⟩, hext⟩

/-- A source without tables is cloned. -/
lemma clone_empty {src : ℕ} {env : CloneEnv} {u : Spaces}
    (h : ∀ i < 1024, (u.blankDirectory env).mem (tablesAddr src i) = 0) :
    u.cloneDirectory src env = some (u.blankDirectory env) := by
  have hloop : ∀ n ≤ 1024, Spaces.cloneSlots src env n (u.blankDirectory env)
      = some (u.blankDirectory env) := by
    intro n hn
    induction n with
    | zero => rfl
    | succ n ih =>
        rw [Spaces.cloneSlots, ih (by omega), Option.bind_some, Spaces.cloneSlot]
        exact if_pos (h n (by omega))
  exact hloop 1024 le_rfl

/-- A machine with empty memory. -/
def emptySpaces : Spaces := ⟨fun _ => 0, fun _ => 0, Frames.clear, 0⟩

/-- A directory in the heap, cloned from one without tables. -/
lemma clone_emptySpaces {env : CloneEnv} (hdir : 0x1000 ≤ env.dir) :
    ∃ u', emptySpaces.cloneDirectory 0 env = some u' := by
  refine ⟨_, clone_empty fun i hi => ?_⟩
  simp only [Spaces.blankDirectory, tablesAddr, physicalAddrAddr]
  rw [Function.update_of_ne (by omega)]
  exact if_neg (by omega)

/-- A directory in the heap, in an environment that makes no table. -/
lemma Reached.served {dir : ℕ} (h : Reached D L K m t) (haligned : dir % 0x1000 = 0)
    (hlo : 0xC0080000 ≤ dir) (hhi : dir + pageDirectorySize ≤ 0xC0080000 + L) :
    CloneEnv.Served ⟨dir, t.paging.kmallocPhys dir, fun _ => 0, fun _ => 0⟩ t where
  aligned := haligned
  start := by rw [h.startAddress]; exact hlo
  stop := by rw [h.heap]; exact hhi
  phys := rfl
  tables i := ⟨rfl, Or.inl (by simp only [pageTableSize]; omega)⟩

/-- The clone of a directory after one expansion of the heap of the boot. -/
theorem cloned_directory_loads_tables_boot :
    ∃ (b : Paging) (t : HeapPages) (env : CloneEnv) (u' : Spaces),
      Paging.boot 0x100000 (fun _ => 0) 0 = some b ∧
        run grow? ⟨bootHeap, b⟩ [.expand 0x81000] = some t ∧
        emptySpaces.cloneDirectory 0 env = some u' ∧ env.dir = 0xC00FE000 ∧
        (LoadsTables t u' env.dir ↔
          t.frameAt ((env.dir - kheapStart) / 0x1000 + 1)
            = t.frameAt ((env.dir - kheapStart) / 0x1000) + 1) ∧
        (Along grow? InOrder ⟨bootHeap, b⟩ [.expand 0x81000] → LoadsTables t u' env.dir) := by
  obtain ⟨b, hb⟩ : ∃ b, Paging.boot 0x100000 (fun _ => 0) 0 = some b :=
    exists_boot le_rfl (by decide) (fun _ _ => rfl) 0
  obtain ⟨D, F, hreached, -, hneed⟩ := boot_reached le_rfl (by decide) (fun _ _ => rfl) hb
  have hframes : F + 256 < nframes := by
    rw [hneed]
    decide
  obtain ⟨t, ht, hreached', -⟩ := hreached.expand_page (by norm_num) (by norm_num) hframes
  have hrun : run grow? ⟨bootHeap, b⟩ [.expand 0x81000] = some t := by
    rw [run_cons]
    exact (congrArg (Option.bind · _) ht).trans rfl
  obtain ⟨env, henv⟩ : ∃ env : CloneEnv, env =
    ⟨0xC00FE000, t.paging.kmallocPhys 0xC00FE000, fun _ => 0, fun _ => 0⟩ := ⟨_, rfl⟩
  have hserved : env.Served t := by
    rw [henv]
    exact hreached'.served (by decide) (by decide) (by decide)
  have hdir : env.dir = 0xC00FE000 := by rw [henv]
  have hlow : 0x1000 ≤ env.dir := by
    rw [hdir]
    decide
  obtain ⟨u', hu'⟩ := clone_emptySpaces hlow
  exact ⟨b, t, env, u', hb, hrun, hu', hdir, cloned_directory_loads_tables le_rfl (by decide)
    (fun _ _ => rfl) hb hrun (run_nil t) hserved hu'⟩

/-- A page outside of the heap gets a frame between the boot and the first expansion of the heap. The
directory is on the last page of the boot and the two that follow. -/
theorem cloned_directory_misses_tables :
    ∃ (b : Paging) (t : HeapPages) (env : CloneEnv) (u' : Spaces),
      Paging.boot 0x100000 (fun _ => 0) 0 = some b ∧
        run grow? ⟨bootHeap, b⟩ [.other Page.zero false true, .expand 0x81000, .expand 0x82000] = some t ∧
        env.Served t ∧ emptySpaces.cloneDirectory 0 env = some u' ∧ ¬ LoadsTables t u' env.dir := by
  obtain ⟨b, hb⟩ : ∃ b, Paging.boot 0x100000 (fun _ => 0) 0 = some b :=
    exists_boot le_rfl (by decide) (fun _ _ => rfl) 0
  obtain ⟨D, F, hreached, hc, hneed⟩ := boot_reached le_rfl (by decide) (fun _ _ => rfl) hb
  have hframes : F + 259 < nframes := by
    have h259 : F + 259 = Paging.framesNeeded 0x100000 + 3 := by omega
    rw [h259]
    decide
  obtain ⟨t₁, ht₁, hreached₁⟩ : ∃ t₁, HeapPages.grow? ⟨bootHeap, b⟩ (.other Page.zero false true) = some t₁ ∧
      Reached D 0x80000 256 (F + 257) t₁ := by
    have hfirst : b.frames.firstFrame = some (F + 256) := by
      refine Frames.firstFrame_eq_some (by omega) ?_ fun g hg => (hreached.filled.used g).mpr hg
      rw [← Bool.not_eq_true, hreached.filled.used]
      exact lt_irrefl _
    refine ⟨_, (congrArg (Option.map _) (allocFrame_eq rfl hfirst _ _)).trans rfl, hreached.heap,
      { hreached.filled with
        used := Paging.used_setFrame_succ hreached.filled.used
        pos := Nat.succ_pos _ }, hreached.stop⟩
  obtain ⟨t₂, ht₂, hreached₂, hext₂⟩ := hreached₁.expand_page (by norm_num) (by norm_num) (by omega)
  obtain ⟨t₃, ht₃, hreached₃, hext₃⟩ := hreached₂.expand_page (by norm_num) (by norm_num) (by omega)
  obtain ⟨env, henv⟩ : ∃ env : CloneEnv, env =
    ⟨0xC00FF000, t₃.paging.kmallocPhys 0xC00FF000, fun _ => 0, fun _ => 0⟩ := ⟨_, rfl⟩
  have hserved : env.Served t₃ := by
    rw [henv]
    exact hreached₃.served (by decide) (by decide) (by decide)
  have hdir : env.dir = 0xC0000000 + 0x1000 * 255 := by rw [henv]
  have hlow : 0x1000 ≤ env.dir := by
    rw [hdir]
    decide
  obtain ⟨u', hu'⟩ := clone_emptySpaces hlow
  refine ⟨b, t₃, env, u', hb, ?_, hserved, hu', fun hloads => ?_⟩
  · rw [run_cons, ht₁, Option.bind_some, run_cons]
    refine (congrArg (Option.bind · _) ht₂).trans ?_
    rw [Option.bind_some, run_cons]
    exact (congrArg (Option.bind · _) ht₃).trans rfl
  · have hframe := (hreached₃.loadsTables_iff hreached₃ le_rfl (fun _ _ => rfl) hserved hu' hdir).2.mp
      hloads
    have hlast : (entry D t₁.paging 255).frame.val = F + 255 := by
      have hmem : t₁.paging.mem = b.mem := by
        obtain ⟨_, -, hmem⟩ := hreached.other ht₁
        exact hmem
      rw [entry, hmem]
      exact hc 255 (by norm_num)
    have hnext := hext₂.next 256 le_rfl (by norm_num)
    rw [hreached₃.frameAt_eq, hreached₃.frameAt_eq, hext₃.kept 256 (by norm_num),
      hext₃.kept 255 (by norm_num), hext₂.kept 255 (by norm_num), hlast, hnext] at hframe
    omega

end HeapPages

end Matanos
