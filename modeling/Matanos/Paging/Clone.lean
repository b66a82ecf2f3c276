import Mathlib.Order.Interval.Finset.Nat
import Matanos.Paging.Tables

/-!
`clone_table`, `clone_directory` and `copy_page_physical`.

Directories and tables lie in the kernel's address space, the pages they map in physical memory.
A clone gets its frames from the bitset, so the copies go to frames that no entry refers to, and
the two memories can be kept apart. What `kmalloc_ap` returns is given by a `CloneEnv`.

* `Spaces`, `cloneEntry`, `cloneTable`, `cloneSlot`, `cloneDirectory`: the functions;
* `Ext n`: the effect on bitset and physical memory of anything that takes `n` frames: used
  frames stay used and keep their contents;
* `EntryCloned`: what a cloned entry is to its source;
* `cloneEntries_spec`, `cloneTable_spec`: a table is cloned entry by entry.
-/

namespace Matanos

open Lib

/-- The kernel's address space and physical memory, both by words, the bitset and the global
`kernel_directory`. -/
structure Spaces where
  mem : ℕ → ℕ
  phys : ℕ → ℕ
  frames : Frames
  kernelDirectory : ℕ

/-- What `kmalloc_ap` returns to a call of `clone_directory`: the directory, and the table for
each slot that needs one, with their physical addresses. -/
structure CloneEnv where
  dir : ℕ
  dirPhys : ℕ
  table : ℕ → ℕ
  tablePhys : ℕ → ℕ

/-- The first `n` turns of the loop of `copy_page_physical`. -/
def copyWords (src dst : ℕ) : ℕ → (ℕ → ℕ) → ℕ → ℕ
  | 0, phys => phys
  | n + 1, phys =>
      let phys := copyWords src dst n phys
      Function.update phys (dst + 4 * n) (phys (src + 4 * n))

/-- `copy_page_physical`. -/
def copyPagePhysical (phys : ℕ → ℕ) (src dst : ℕ) : ℕ → ℕ := copyWords src dst 1024 phys

/-- The flags of `q` are set in `p` (`clone_table` clones the flags after `alloc_frame`). -/
def Page.orFlags (p q : Page) : Page :=
  { p with
    present := p.present || q.present
    rw := p.rw || q.rw
    user := p.user || q.user
    accessed := p.accessed || q.accessed
    dirty := p.dirty || q.dirty }

namespace Spaces

/-- The body of the loop of `clone_table`. -/
def cloneEntry (src table i : ℕ) (s : Spaces) : Option Spaces :=
  let page := Page.ofWord (s.mem (src + 4 * i))
  if page.frame ≠ 0 then
    (allocFrame s.frames (Page.ofWord (s.mem (table + 4 * i))) false true).map fun (frames, p) =>
      let p := p.orFlags page
      { s with
        frames := frames
        mem := Function.update s.mem (table + 4 * i) p.toWord
        phys := copyPagePhysical s.phys (page.frame * 0x1000) (p.frame * 0x1000) }
  else some s

/-- The first `n` turns of the loop of `clone_table`. -/
def cloneEntries (src table : ℕ) : ℕ → Spaces → Option Spaces
  | 0, s => some s
  | n + 1, s => (cloneEntries src table n s).bind (cloneEntry src table n)

/-- `clone_table`, with the table that `kmalloc_ap` returned. The table is cleared with the size
of a directory. -/
def cloneTable (src table : ℕ) (s : Spaces) : Option Spaces :=
  cloneEntries src table 1024 { s with mem := memsetZero s.mem table pageDirectorySize }

/-- The assignments of `dir->tables[i]` and `dir->tablesPhysical[i]`. -/
def setSlot (s : Spaces) (dir i table phys : ℕ) : Spaces :=
  let mem := Function.update s.mem (tablesAddr dir i) table
  { s with mem := Function.update mem (tablesPhysicalAddr dir i) phys }

/-- The body of the loop of `clone_directory`. -/
def cloneSlot (src : ℕ) (env : CloneEnv) (i : ℕ) (s : Spaces) : Option Spaces :=
  let table := s.mem (tablesAddr src i)
  if table = 0 then some s
  else if s.mem (tablesAddr s.kernelDirectory i) = table then
    some (s.setSlot env.dir i table (s.mem (tablesPhysicalAddr src i)))
  else
    (cloneTable table (env.table i) s).map fun s =>
      s.setSlot env.dir i (env.table i) (env.tablePhys i ||| 0x7)

/-- The first `n` turns of the loop of `clone_directory`. -/
def cloneSlots (src : ℕ) (env : CloneEnv) : ℕ → Spaces → Option Spaces
  | 0, s => some s
  | n + 1, s => (cloneSlots src env n s).bind (cloneSlot src env n)

/-- The directory before the loop of `clone_directory`: cleared, with its physical address. -/
def blankDirectory (env : CloneEnv) (s : Spaces) : Spaces :=
  let mem := memsetZero s.mem env.dir pageDirectorySize
  let offset := tablesPhysicalAddr env.dir 0 - env.dir
  { s with mem := Function.update mem (physicalAddrAddr env.dir) (env.dirPhys + offset) }

/-- `clone_directory`. -/
def cloneDirectory (src : ℕ) (env : CloneEnv) (s : Spaces) : Option Spaces :=
  cloneSlots src env 1024 (s.blankDirectory env)

end Spaces

/-! ### Copying a page -/

section Copy

variable {src dst : ℕ} {phys : ℕ → ℕ}

lemma copyWords_frame {x n : ℕ} (hx : ∀ k < n, x ≠ dst + 4 * k) :
    copyWords src dst n phys x = phys x := by
  induction n with
  | zero => rfl
  | succ n ih =>
      rw [copyWords, Function.update_of_ne (hx n (Nat.lt_succ_self n))]
      exact ih fun k hk => hx k (by omega)

lemma copyWords_read {n k : ℕ} (hk : k < n) (hsep : ∀ i < n, ∀ j < n, src + 4 * i ≠ dst + 4 * j) :
    copyWords src dst n phys (dst + 4 * k) = phys (src + 4 * k) := by
  induction n with
  | zero => omega
  | succ n ih =>
      rw [copyWords]
      rcases Nat.lt_succ_iff_lt_or_eq.mp hk with h | rfl
      · rw [Function.update_of_ne (by omega)]
        exact ih h fun i hi j hj => hsep i (by omega) j (by omega)
      · rw [Function.update_self]
        exact copyWords_frame fun j hj => hsep k (by omega) j (by omega)

/-- **The copied frame holds what the source frame held, every other frame what it held
before.** -/
lemma copyPagePhysical_spec {f g : ℕ} (hfg : f ≠ g) (phys : ℕ → ℕ) :
    (∀ w < 1024, copyPagePhysical phys (f * 0x1000) (g * 0x1000) (g * 0x1000 + 4 * w)
        = phys (f * 0x1000 + 4 * w)) ∧
      ∀ h, h ≠ g → ∀ w < 1024, copyPagePhysical phys (f * 0x1000) (g * 0x1000) (h * 0x1000 + 4 * w)
        = phys (h * 0x1000 + 4 * w) :=
  ⟨fun w hw => copyWords_read hw fun i hi j hj => by omega,
    fun h hh w hw => copyWords_frame fun k hk => by omega⟩

end Copy

/-! ### Taking frames -/

namespace Frames

/-- The number of free frames. -/
def freeCount (frames : Frames) : ℕ := Nat.count (fun f => frames.used f = false) nframes

variable {frames : Frames} {f : ℕ}

lemma freeCount_setFrame (hf : f < nframes) (hfree : frames.used f = false) :
    (frames.setFrame (f * 0x1000)).freeCount + 1 = frames.freeCount := by
  have hdiv : f * 0x1000 / 0x1000 = f := by omega
  have hmem : f ∈ (Finset.range nframes).filter fun g => frames.used g = false := by
    simp [hf, hfree]
  have herase : ((Finset.range nframes).filter fun g => (frames.setFrame (f * 0x1000)).used g = false)
      = ((Finset.range nframes).filter fun g => frames.used g = false).erase f := by
    ext g
    simp only [Finset.mem_filter, Finset.mem_erase, used_setFrame, hdiv, Bool.or_eq_false_iff,
      beq_eq_false_iff_ne]
    constructor
    · rintro ⟨h1, h2, h3⟩
      exact ⟨fun h => h3 h.symm, h1, h2⟩
    · rintro ⟨h1, h2, h3⟩
      exact ⟨h2, h3, fun h => h1 h.symm⟩
  rw [freeCount, freeCount, Nat.count_eq_card_filter_range, Nat.count_eq_card_filter_range, herase,
    Finset.card_erase_of_mem hmem]
  have := Finset.card_pos.mpr ⟨f, hmem⟩
  omega

lemma exists_firstFrame_of_pos (h : 0 < frames.freeCount) : ∃ f, frames.firstFrame = some f := by
  rw [freeCount, Nat.count_eq_card_filter_range, Finset.card_pos] at h
  obtain ⟨g, hg⟩ := h
  simp only [Finset.mem_filter, Finset.mem_range] at hg
  exact exists_firstFrame ⟨g, hg.1, hg.2⟩

end Frames

namespace Spaces

variable {s s' s'' : Spaces} {n m : ℕ}

/-- What taking `n` frames leaves: used frames stay used and keep their contents. -/
structure Ext (n : ℕ) (s s' : Spaces) : Prop where
  mono : ∀ f, s.frames.used f = true → s'.frames.used f = true
  kept : ∀ f, s.frames.used f = true → ∀ w < 1024,
    s'.phys (f * 0x1000 + 4 * w) = s.phys (f * 0x1000 + 4 * w)
  count : s'.frames.freeCount + n = s.frames.freeCount
  kernel : s'.kernelDirectory = s.kernelDirectory

/-- A change of the kernel's address space only. -/
lemma Ext.of_mem (s : Spaces) (mem : ℕ → ℕ) : Ext 0 s { s with mem := mem } :=
  ⟨fun _ => id, fun _ _ _ _ => rfl, Nat.add_zero _, rfl⟩

lemma Ext.trans (h : Ext n s s') (h' : Ext m s' s'') : Ext (n + m) s s'' where
  mono f hf := h'.mono f (h.mono f hf)
  kept f hf w hw := (h'.kept f (h.mono f hf) w hw).trans (h.kept f hf w hw)
  count := by have := h.count; have := h'.count; omega
  kernel := h'.kernel.trans h.kernel

lemma Ext.changeMem (h : Ext n s s') (mem : ℕ → ℕ) : Ext n s { s' with mem := mem } :=
  ⟨h.mono, h.kept, h.count, h.kernel⟩

/-- A frame that is free afterwards was free before. -/
lemma Ext.unused (h : Ext n s s') {f : ℕ} (hf : s'.frames.used f = false) :
    s.frames.used f = false := by
  rw [← Bool.not_eq_true] at hf ⊢
  exact fun hu => hf (h.mono f hu)

/-- The entry `k` of a table. -/
def entryAt (s : Spaces) (t k : ℕ) : Page := Page.ofWord (s.mem (t + 4 * k))

/-- The entry `k` of the table `T` in `s'` is a clone of that of the table `t` in `s`: null if it
has no frame, else present with a frame that was free, and the contents are those of the
source. -/
structure EntryCloned (s : Spaces) (t : ℕ) (s' : Spaces) (T k : ℕ) : Prop where
  null : (s.entryAt t k).frame = 0 → s'.entryAt T k = Page.zero
  present : (s.entryAt t k).frame ≠ 0 → (s'.entryAt T k).present = true
  frame : (s.entryAt t k).frame ≠ 0 → (s'.entryAt T k).frame ≠ 0
  unused : (s.entryAt t k).frame ≠ 0 → s.frames.used (s'.entryAt T k).frame = false
  used : (s.entryAt t k).frame ≠ 0 → s'.frames.used (s'.entryAt T k).frame = true
  same : (s.entryAt t k).frame ≠ 0 → ∀ w < 1024,
    s'.phys ((s'.entryAt T k).frame * 0x1000 + 4 * w)
      = s.phys ((s.entryAt t k).frame * 0x1000 + 4 * w)

/-- A clone stays one while further frames are taken and its word is kept. -/
lemma EntryCloned.mono {t T k : ℕ} (h : EntryCloned s t s' T k) (he : Ext n s' s'')
    (hw : s''.entryAt T k = s'.entryAt T k) : EntryCloned s t s'' T k where
  null h0 := hw.trans (h.null h0)
  present h0 := by rw [hw]; exact h.present h0
  frame h0 := by rw [hw]; exact h.frame h0
  unused h0 := by rw [hw]; exact h.unused h0
  used h0 := by rw [hw]; exact he.mono _ (h.used h0)
  same h0 w hlt := by rw [hw, he.kept _ (h.used h0) w hlt]; exact h.same h0 w hlt

/-- A clone made after further frames were taken is one of the entry before. -/
lemma EntryCloned.base {t T k : ℕ} (h : EntryCloned s' t s'' T k) (he : Ext n s s')
    (hsrc : s'.entryAt t k = s.entryAt t k)
    (hu : s.frames.used (s.entryAt t k).frame = true) : EntryCloned s t s'' T k where
  null h0 := h.null (by rw [hsrc]; exact h0)
  present h0 := h.present (by rwa [hsrc])
  frame h0 := h.frame (by rwa [hsrc])
  unused h0 := he.unused (h.unused (by rwa [hsrc]))
  used h0 := h.used (by rwa [hsrc])
  same h0 w hw := by
    rw [h.same (by rwa [hsrc]) w hw, hsrc]
    exact he.kept _ hu w hw

/-- **Cloning one entry**: nothing for an entry without a frame, else a free frame with the
contents of the source. -/
lemma cloneEntry_spec {t T k : ℕ} (hT : s.mem (T + 4 * k) = 0) (h0 : s.frames.used 0 = true)
    (hu : s.frames.used (s.entryAt t k).frame = true)
    (hfree : (s.entryAt t k).frame ≠ 0 → 0 < s.frames.freeCount) :
    ∃ s', cloneEntry t T k s = some s' ∧
      Ext (if (s.entryAt t k).frame ≠ 0 then 1 else 0) s s' ∧
      (∀ x, x ≠ T + 4 * k → s'.mem x = s.mem x) ∧ EntryCloned s t s' T k := by
  by_cases hf : (s.entryAt t k).frame = 0
  · refine ⟨s, if_neg (not_not.mpr hf), ?_, fun _ _ => rfl, ?_⟩
    · rw [if_neg (not_not.mpr hf)]
      exact Ext.of_mem s s.mem
    · have hz : s.entryAt T k = Page.zero := by rw [entryAt, hT, Page.ofWord_zero]
      exact ⟨fun _ => hz, fun h => absurd hf h, fun h => absurd hf h, fun h => absurd hf h,
        fun h => absurd hf h, fun h => absurd hf h⟩
  · obtain ⟨g, hg⟩ := Frames.exists_firstFrame_of_pos (hfree hf)
    obtain ⟨hlt, hunused, _⟩ := Frames.firstFrame_spec hg
    have hgval : (Fin.ofNat (2 ^ 20) g).val = g := val_ofNat_of_lt hlt
    have hne : ∀ f, s.frames.used f = true → f ≠ g := by
      rintro f hfu rfl
      exact Bool.false_ne_true (hunused.symm.trans hfu)
    have hused : ∀ f, (s.frames.setFrame (g * 0x1000)).used f = (s.frames.used f || (g == f)) := by
      intro f
      have hdiv : g * 0x1000 / 0x1000 = g := by omega
      rw [Frames.used_setFrame, hdiv]
    obtain ⟨hcopy, hother⟩ := copyPagePhysical_spec (hne _ hu) s.phys
    obtain ⟨p, hp⟩ : ∃ p : Page, p = Page.orFlags { Page.zero with
      present := true, rw := true, user := !false, frame := Fin.ofNat (2 ^ 20) g }
        (s.entryAt t k) := ⟨_, rfl⟩
    have hpf : p.frame = Fin.ofNat (2 ^ 20) g := by rw [hp]; rfl
    have hpp : p.present = true := by rw [hp]; rfl
    have heq : cloneEntry t T k s = some
        { s with
          frames := s.frames.setFrame (g * 0x1000)
          mem := Function.update s.mem (T + 4 * k) p.toWord
          phys := copyPagePhysical s.phys ((s.entryAt t k).frame * 0x1000) (g * 0x1000) } := by
      rw [cloneEntry]
      refine (if_pos hf).trans ?_
      rw [hT, Page.ofWord_zero, allocFrame_eq rfl hg, Option.map_some]
      simp only [Option.some.injEq, Spaces.mk.injEq, and_true]
      refine ⟨by rw [hp]; rfl, ?_⟩
      simp only [Page.orFlags, hgval]
      rfl
    refine ⟨_, heq, ?_, ?_, ?_⟩
    · rw [if_pos hf]
      refine ⟨fun f hfu => ?_, fun f hfu w hw => ?_, Frames.freeCount_setFrame hlt hunused, rfl⟩
      · rw [hused, hfu, Bool.true_or]
      · exact hother f (hne f hfu) w hw
    · intro x hx
      exact Function.update_of_ne hx _ _
    · have he : entryAt { s with
          frames := s.frames.setFrame (g * 0x1000)
          mem := Function.update s.mem (T + 4 * k) p.toWord
          phys := copyPagePhysical s.phys ((s.entryAt t k).frame * 0x1000) (g * 0x1000) } T k
          = p := by
        simp only [entryAt, Function.update_self, Page.ofWord_toWord]
      have hgf : (p.frame : ℕ) = g := by rw [hpf]; exact hgval
      refine ⟨fun h => absurd h hf, fun _ => ?_, fun _ => ?_, fun _ => ?_, fun _ => ?_, fun _ => ?_⟩
      · rw [he]; exact hpp
      · rw [he]
        intro hz
        rw [hz] at hgf
        exact hne 0 h0 hgf
      · rw [he, hgf]; exact hunused
      · rw [he, hgf, hused, beq_self_eq_true, Bool.or_true]
      · rw [he, hgf]; exact hcopy

/-- The entries of a table that have a frame, among the first `n`. -/
def mapped (s : Spaces) (t n : ℕ) : ℕ := Nat.count (fun k => (s.entryAt t k).frame ≠ 0) n

/-- The clones of the first `n` entries of a table, and no two of them with the same frame. -/
structure EntriesCloned (s : Spaces) (t : ℕ) (s' : Spaces) (T n : ℕ) : Prop where
  entry : ∀ k < n, EntryCloned s t s' T k
  inj : ∀ j < n, ∀ k < n, (s.entryAt t j).frame ≠ 0 → (s.entryAt t k).frame ≠ 0 →
    (s'.entryAt T j).frame = (s'.entryAt T k).frame → j = k

lemma EntriesCloned.mono {t T i : ℕ} (h : EntriesCloned s t s' T i) (he : Ext n s' s'')
    (hw : ∀ k < i, s''.entryAt T k = s'.entryAt T k) : EntriesCloned s t s'' T i where
  entry k hk := (h.entry k hk).mono he (hw k hk)
  inj j hj k hk hfj hfk heq := by
    rw [hw j hj, hw k hk] at heq
    exact h.inj j hj k hk hfj hfk heq

/-- **The loop of `clone_table`**, on a blank table away from the source. -/
lemma cloneEntries_spec {t T n : ℕ} (hn : n ≤ 1024) (hT : ∀ k < 1024, s.mem (T + 4 * k) = 0)
    (hsep : ∀ i < 1024, ∀ j < 1024, t + 4 * i ≠ T + 4 * j) (h0 : s.frames.used 0 = true)
    (hu : ∀ k < 1024, s.frames.used (s.entryAt t k).frame = true)
    (hfree : s.mapped t n ≤ s.frames.freeCount) :
    ∃ s', cloneEntries t T n s = some s' ∧ Ext (s.mapped t n) s s' ∧
      (∀ x, (∀ k < n, x ≠ T + 4 * k) → s'.mem x = s.mem x) ∧ EntriesCloned s t s' T n := by
  induction n with
  | zero => exact ⟨s, rfl, Ext.of_mem s s.mem, fun _ _ => rfl, by simp, by simp⟩
  | succ n ih =>
      have hcount : s.mapped t (n + 1)
          = s.mapped t n + if (s.entryAt t n).frame ≠ 0 then 1 else 0 := Nat.count_succ _ _
      rw [hcount] at hfree
      obtain ⟨s₁, hs₁, hext₁, hmem₁, hcl⟩ := ih (by omega) (by omega)
      -- the source entry and the blank entry are as they were before the loop
      have hsrc : s₁.entryAt t n = s.entryAt t n := by
        rw [entryAt, entryAt, hmem₁ _ fun k hk => hsep n (by omega) k (by omega)]
      have hblank : s₁.mem (T + 4 * n) = 0 := by
        rw [hmem₁ _ fun k hk => by omega]
        exact hT n (by omega)
      have hleft : (s₁.entryAt t n).frame ≠ 0 → 0 < s₁.frames.freeCount := by
        intro hf
        rw [hsrc] at hf
        rw [if_pos hf] at hfree
        have := hext₁.count
        omega
      have hun : s₁.frames.used (s₁.entryAt t n).frame = true := by
        rw [hsrc]
        exact hext₁.mono _ (hu n (by omega))
      obtain ⟨s₂, hs₂, hext₂, hmem₂, hcl₂⟩ := cloneEntry_spec hblank (hext₁.mono 0 h0) hun hleft
      rw [hsrc] at hext₂
      have hword : ∀ k < n, s₂.entryAt T k = s₁.entryAt T k := by
        intro k hk
        rw [entryAt, entryAt, hmem₂ _ (by omega)]
      -- earlier frames were used when the new one was still free
      have hnew : ∀ k < n, (s.entryAt t k).frame ≠ 0 → (s.entryAt t n).frame ≠ 0 →
          (s₂.entryAt T k).frame ≠ (s₂.entryAt T n).frame := by
        intro k hk hfk hfn heq
        have hused := (hcl.entry k hk).used hfk
        have hunused := hcl₂.unused (by rw [hsrc]; exact hfn)
        rw [← heq, hword k hk, hused] at hunused
        exact Bool.false_ne_true hunused.symm
      have hlast : EntryCloned s t s₂ T n := hcl₂.base hext₁ hsrc (hu n (by omega))
      refine ⟨s₂, by rw [cloneEntries, hs₁, Option.bind_some, hs₂], ?_, fun x hx => ?_, ?_, ?_⟩
      · rw [hcount]
        exact hext₁.trans hext₂
      · rw [hmem₂ x (hx n (Nat.lt_succ_self n))]
        exact hmem₁ x fun k hk => hx k (by omega)
      · intro k hk
        rcases Nat.lt_succ_iff_lt_or_eq.mp hk with h | rfl
        · exact (hcl.entry k h).mono hext₂ (hword k h)
        · exact hlast
      · intro j hj k hk hfj hfk heq
        rcases Nat.lt_succ_iff_lt_or_eq.mp hj with hj' | rfl
        · rcases Nat.lt_succ_iff_lt_or_eq.mp hk with hk' | rfl
          · rw [hword j hj', hword k hk'] at heq
            exact hcl.inj j hj' k hk' hfj hfk heq
          · exact absurd heq (hnew j hj' hfj hfk)
        · rcases Nat.lt_succ_iff_lt_or_eq.mp hk with hk' | rfl
          · exact absurd heq.symm (hnew k hk' hfk hfj)
          · rfl

/-- **`clone_table`**, when the words it clears are not those of the source. -/
lemma cloneTable_spec {t T : ℕ} (hsep : T + pageDirectorySize ≤ t ∨ t + pageTableSize ≤ T)
    (h0 : s.frames.used 0 = true)
    (hu : ∀ k < 1024, s.frames.used (s.entryAt t k).frame = true)
    (hfree : s.mapped t 1024 ≤ s.frames.freeCount) :
    ∃ s', cloneTable t T s = some s' ∧ Ext (s.mapped t 1024) s s' ∧
      (∀ x, x < T ∨ T + pageDirectorySize ≤ x → s'.mem x = s.mem x) ∧
      EntriesCloned s t s' T 1024 := by
  simp only [pageDirectorySize, pageTableSize] at *
  set s₀ : Spaces := { s with mem := memsetZero s.mem T 0x2004 } with hs₀
  have hmem : ∀ x, x < T ∨ T + 0x2004 ≤ x → s₀.mem x = s.mem x := by
    intro x hx
    exact if_neg (by omega)
  have hentry : ∀ k < 1024, s₀.entryAt t k = s.entryAt t k := by
    intro k hk
    rw [entryAt, entryAt, hmem _ (by omega)]
  have hmapped : s₀.mapped t 1024 = s.mapped t 1024 := by
    simp only [mapped, Nat.count_eq_card_filter_range]
    refine congrArg Finset.card (Finset.filter_congr fun k hk => ?_)
    rw [hentry k (Finset.mem_range.mp hk)]
  obtain ⟨s', hs', hext, hmem', hcl⟩ := cloneEntries_spec (s := s₀) (t := t) (T := T) le_rfl
    (fun k hk => if_pos (by omega)) (fun i hi j hj => by omega) h0
    (fun k hk => by rw [hentry k hk]; exact hu k hk) (by rw [hmapped]; exact hfree)
  rw [hmapped] at hext
  refine ⟨s', hs', ⟨hext.mono, hext.kept, hext.count, hext.kernel⟩, fun x hx => ?_, ?_, ?_⟩
  · rw [hmem' x fun k hk => by omega]
    exact hmem x hx
  · exact fun k hk => (hcl.entry k hk).base (Ext.of_mem s _) (hentry k hk) (hu k hk)
  · intro j hj k hk hfj hfk
    exact hcl.inj j hj k hk (by rwa [hentry j hj]) (by rwa [hentry k hk])

end Spaces

end Matanos
