import Matanos.Paging.Directory

/-!
A page in a table that is made for it.

`get_page_ptr_in_page_table` does not clear the table, and `alloc_frame` does nothing for an entry that
has a frame number.

* `mapPage`: the two calls; `TakesEffect`: what the caller expects of them;
* `mapPage_takes_effect_iff`: what the memory of the new table has to be like.
-/

namespace Matanos

namespace PageCall

/-- The table that a call makes is not in the directory, which has none for the address. -/
structure MakesTable (dir : ℕ) (s : Paging) (c : PageCall) : Prop where
  make : c.make = true
  absent : s.mem (tablesAddr dir (c.address / 0x1000 / 1024)) = 0
  address : c.address < 2 ^ 32
  apart : c.block.addr + pageTableSize ≤ dir ∨ dir + pageDirectorySize ≤ c.block.addr

/-- `alloc_frame(get_page_ptr_in_page_table(address, make, dir), isKernel, isWriteable)`. The bitset is
that of the call of `alloc_frame`. -/
def mapPage (s : Paging) (dir : ℕ) (c : PageCall) (isKernel isWriteable : Bool) : Option Paging :=
  let (ptr, mem) := getPagePtr dir s.mem c
  ({ s with mem := mem } : Paging).allocFrameAt ptr isKernel isWriteable

/-- The entry of the address is present, with the flags and a frame that was free and is now used, and no
other entry of the table is present. -/
def TakesEffect (s s' : Paging) (c : PageCall) (isKernel isWriteable : Bool) : Prop :=
  let table := c.block.addr
  let page := Page.ofWord (s'.mem (table + 4 * (c.address / 0x1000 % 1024)))
  (page.present = true ∧ page.rw = isWriteable ∧ page.user = !isKernel ∧
      s.frames.used page.frame = false ∧ s'.frames.used page.frame = true) ∧
    ∀ j < 1024, j ≠ c.address / 0x1000 % 1024 →
      (Page.ofWord (s'.mem (table + 4 * j))).present = false

/-- In the memory of the new table the entry of the address has no frame number, and no other entry is
present. -/
def BlankEnough (c : PageCall) : Prop :=
  (Page.ofWord (c.block.mem (c.block.addr + 4 * (c.address / 0x1000 % 1024)))).frame = 0 ∧
    ∀ j < 1024, j ≠ c.address / 0x1000 % 1024 →
      (Page.ofWord (c.block.mem (c.block.addr + 4 * j))).present = false

variable {dir : ℕ} {s s' : Paging} {c : PageCall}

/-- A new table has the words that its memory had. -/
lemma MakesTable.getPagePtr_eq (h : MakesTable dir s c) :
    (getPagePtr dir s.mem c).1 = c.block.addr + 4 * (c.address / 0x1000 % 1024) ∧
      ∀ j < 1024, (getPagePtr dir s.mem c).2 (c.block.addr + 4 * j)
        = c.block.mem (c.block.addr + 4 * j) := by
  obtain ⟨hmake, habsent, haddr, hapart⟩ := h
  simp only [pageTableSize, pageDirectorySize] at hapart
  have heq : getPagePtr dir s.mem c = _ := (if_neg (not_not.mpr habsent)).trans (if_pos hmake)
  rw [heq]
  simp only [tablesAddr, tablesPhysicalAddr]
  refine ⟨?_, fun j hj => ?_⟩
  · rw [Function.update_of_ne (by omega), Function.update_self]
  · rw [Function.update_of_ne (by omega), Function.update_of_ne (by omega)]

/-- The words of a table after `alloc_frame` on one of its entries. -/
lemma mem_putPage {ptr x : ℕ} {r : Frames × Page} :
    (s.putPage ptr r).mem x = if x = ptr then r.2.toWord else s.mem x := by
  simp only [Paging.putPage, Paging.mem_write]
  split_ifs with h
  · rw [h, Function.update_self]
  · exact Function.update_of_ne h _ _

/-- Mapping a page in a table that is made for it takes effect if and only if, in the memory that
`kmalloc_ap` hands out for the table, the entry of the page has no frame number and no other entry is
present. -/
theorem mapPage_takes_effect_iff {dir : ℕ} {s : Paging} {c : PageCall} (h : MakesTable dir s c)
    (hfree : ∃ f < nframes, s.frames.used f = false) (isKernel isWriteable : Bool) :
    (∃ s', mapPage s dir c isKernel isWriteable = some s' ∧
      TakesEffect s s' c isKernel isWriteable) ↔ BlankEnough c := by
  obtain ⟨hptr, hwords⟩ := h.getPagePtr_eq
  obtain ⟨i, hi⟩ : ∃ i, c.address / 0x1000 % 1024 = i := ⟨_, rfl⟩
  have hlt : i < 1024 := hi ▸ Nat.mod_lt _ (by norm_num)
  rw [hi] at hptr
  simp only [mapPage, TakesEffect, BlankEnough, hi, Paging.allocFrameAt, hptr, hwords i hlt]
  obtain ⟨page, hpage⟩ : ∃ page, Page.ofWord (c.block.mem (c.block.addr + 4 * i)) = page := ⟨_, rfl⟩
  rw [hpage]
  have hothers : ∀ (r : Frames × Page) j, j < 1024 → j ≠ i →
      (({ s with mem := (getPagePtr dir s.mem c).2 } : Paging).putPage (c.block.addr + 4 * i) r).mem
        (c.block.addr + 4 * j) = c.block.mem (c.block.addr + 4 * j) := by
    intro r j hj hji
    rw [mem_putPage, if_neg (by omega)]
    exact hwords j hj
  by_cases hframe : page.frame = 0
  · obtain ⟨f, hf⟩ := Frames.exists_firstFrame hfree
    obtain ⟨hflt, hclear, -⟩ := Frames.firstFrame_spec hf
    have hdiv : f * 0x1000 / 0x1000 = f := by omega
    rw [allocFrame_eq hframe hf, Option.map_some]
    simp only [Option.some.injEq, exists_eq_left', mem_putPage, if_true, Page.ofWord_toWord, true_and,
      val_ofNat_of_lt hflt]
    have hused : (s.frames.setFrame (f * 0x1000)).used f = true := by
      rw [Frames.used_setFrame, hdiv, beq_self_eq_true, Bool.or_true]
    constructor
    · rintro ⟨-, hrest⟩
      refine ⟨hframe, fun j hj hji => ?_⟩
      have := hrest j hj hji
      rwa [if_neg (by omega), hwords j hj] at this
    · rintro ⟨-, hrest⟩
      refine ⟨⟨hclear, hused⟩, fun j hj hji => ?_⟩
      rw [if_neg (by omega), hwords j hj]
      exact hrest j hj hji
  · -- the entry keeps its frame, and the bitset is not changed
    rw [allocFrame, if_pos hframe, Option.map_some]
    simp only [Option.some.injEq, exists_eq_left', mem_putPage, if_true, Page.ofWord_toWord]
    refine iff_of_false ?_ fun hblank => hframe hblank.1
    rintro ⟨⟨-, -, -, hfree', hused⟩, -⟩
    exact Bool.false_ne_true (hfree'.symm.trans hused)

/-- The first page of the stack, in a table at `0xC0081000` whose memory has the word `w` for it. -/
def stackPage (w : ℕ) : PageCall :=
  ⟨0xE0000000, true, ⟨0xC0081000, 0x189000, Function.update (fun _ => 0) 0xC0081000 w⟩⟩

/-- A directory at `0x1000` without tables. -/
def emptyPaging : Paging := ⟨fun _ => 0, Frames.clear, 0, 0x1000⟩

lemma stackPage_makesTable (w : ℕ) : MakesTable 0x1000 emptyPaging (stackPage w) where
  make := rfl
  absent := rfl
  address := by
    change 0xE0000000 < 2 ^ 32
    decide
  apart := by
    refine Or.inr ?_
    change 0x1000 + pageDirectorySize ≤ 0xC0081000
    decide

lemma emptyPaging_free : ∃ f < nframes, emptyPaging.frames.used f = false :=
  ⟨0, by decide, Frames.used_clear 0⟩

/-- In a cleared table the page is mapped. -/
theorem mapPage_takes_effect_cleared :
    (∃ s', mapPage emptyPaging 0x1000 (stackPage 0) false true = some s' ∧
      TakesEffect emptyPaging s' (stackPage 0) false true) ↔ BlankEnough (stackPage 0) :=
  mapPage_takes_effect_iff (stackPage_makesTable 0) emptyPaging_free false true

/-- Where a freed block has left `0x5000`, the entry keeps that frame number and is not present. -/
theorem mapPage_keeps_stale_frame :
    ¬ ∃ s', mapPage emptyPaging 0x1000 (stackPage 0x5000) false true = some s' ∧
      TakesEffect emptyPaging s' (stackPage 0x5000) false true := by
  rintro ⟨s', hmap, ⟨hpresent, -⟩, -⟩
  obtain ⟨hptr, hwords⟩ := (stackPage_makesTable 0x5000).getPagePtr_eq
  have hword : (getPagePtr 0x1000 emptyPaging.mem (stackPage 0x5000)).2 0xC0081000 = 0x5000 := by
    exact (hwords 0 (by norm_num)).trans (by decide)
  have hidx : (stackPage 0x5000).block.addr + 4 * ((stackPage 0x5000).address / 0x1000 % 1024)
      = 0xC0081000 := by decide
  rw [hidx] at hpresent hptr
  have hframe : (Page.ofWord 0x5000).frame ≠ 0 := by decide
  simp only [mapPage, Paging.allocFrameAt, hptr, hword] at hmap
  rw [allocFrame, if_pos hframe, Option.map_some, Option.some.injEq] at hmap
  rw [← hmap, mem_putPage, if_pos rfl, Page.ofWord_toWord] at hpresent
  exact absurd hpresent (by decide)

end PageCall

end Matanos
