import Mathlib.Algebra.BigOperators.Group.Finset.Basic
import Matanos.Lib.Run
import Matanos.Paging.Clone

/-!
Address spaces made by `clone_directory`, one from another.

* `WellFormed`: the directories and tables of a chain of clones lie apart, every directory has
  the tables of the kernel directory, every frame in use is marked, and in the other tables an
  entry is present exactly when it has a frame;
* `Fresh`: what `kmalloc_ap` returns is apart from what exists; `Spares`: and so are the 8196
  bytes that `clone_table` clears at a table of 4096;
* `cloneDirectory_spec`: a clone shares the tables of the kernel and has copies of the others,
  in frames of its own, and nothing that existed is changed;
* `SlotsCloned.wellFormed`: and the directories with the clone are well formed again.
-/

namespace Matanos

open Lib

/-- Two ranges of addresses without common byte. -/
def Apart (a m b n : ℕ) : Prop := a + m ≤ b ∨ b + n ≤ a

lemma Apart.symm {a m b n : ℕ} (h : Apart a m b n) : Apart b n a m := Or.symm h

lemma apart_of_disjoint {a m b n : ℕ} (hm : 0 < m) (hn : 0 < n)
    (h : ∀ x, a ≤ x → x < a + m → ¬ (b ≤ x ∧ x < b + n)) : Apart a m b n := by
  by_contra hnot
  simp only [Apart, not_or, not_le] at hnot
  rcases Nat.le_total a b with hab | hab
  · exact h b hab hnot.1 ⟨le_rfl, by omega⟩
  · exact h a le_rfl (by omega) ⟨hab, by omega⟩

namespace Spaces

/-- `d->tables[i]`. -/
def tableOf (s : Spaces) (d i : ℕ) : ℕ := s.mem (tablesAddr d i)

/-- `d->tablesPhysical[i]`. -/
def physOf (s : Spaces) (d i : ℕ) : ℕ := s.mem (tablesPhysicalAddr d i)

/-- The slot `i` of `d` has a table that is not the kernel's. -/
def NonKernel (s : Spaces) (d i : ℕ) : Prop :=
  s.tableOf d i ≠ 0 ∧ s.tableOf s.kernelDirectory i ≠ s.tableOf d i

instance (s : Spaces) (d i : ℕ) : Decidable (s.NonKernel d i) := inferInstanceAs (Decidable (_ ∧ _))

/-- The address `t` is a table of one of the directories. -/
def IsTable (s : Spaces) (dirs : List ℕ) (t : ℕ) : Prop :=
  ∃ d ∈ dirs, ∃ i < 1024, s.tableOf d i = t ∧ t ≠ 0

/-- The byte `x` belongs to one of the directories or tables. -/
def Old (s : Spaces) (dirs : List ℕ) (x : ℕ) : Prop :=
  (∃ d ∈ dirs, d ≤ x ∧ x < d + pageDirectorySize) ∨
    ∃ t, s.IsTable dirs t ∧ t ≤ x ∧ x < t + pageTableSize

/-- None of the `len` bytes from `a` belongs to a directory or table. -/
def Unused (s : Spaces) (dirs : List ℕ) (a len : ℕ) : Prop :=
  ∀ x, a ≤ x → x < a + len → ¬ s.Old dirs x

/-- The shape of the directories and tables of a chain of clones. -/
structure WellFormed (s : Spaces) (dirs : List ℕ) : Prop where
  kernel : s.kernelDirectory ∈ dirs
  dirsApart : ∀ d ∈ dirs, ∀ e ∈ dirs, d ≠ e → Apart d pageDirectorySize e pageDirectorySize
  dirTable : ∀ d ∈ dirs, ∀ t, s.IsTable dirs t → Apart d pageDirectorySize t pageTableSize
  tablesApart : ∀ t u, s.IsTable dirs t → s.IsTable dirs u → t ≠ u →
    Apart t pageTableSize u pageTableSize
  shared : ∀ d ∈ dirs, ∀ i < 1024, s.tableOf s.kernelDirectory i ≠ 0 →
    s.tableOf d i = s.tableOf s.kernelDirectory i ∧ s.physOf d i = s.physOf s.kernelDirectory i
  usedZero : s.frames.used 0 = true
  used : ∀ t, s.IsTable dirs t → ∀ k < 1024, s.frames.used (s.entryAt t k).frame = true
  present : ∀ d ∈ dirs, ∀ i < 1024, s.NonKernel d i → ∀ k < 1024,
    (s.entryAt (s.tableOf d i) k).present = true ↔ (s.entryAt (s.tableOf d i) k).frame ≠ 0

/-- What `kmalloc_ap` returns for a clone of `src` is fresh: no byte of it is in use, and the
pieces lie apart. -/
structure Fresh (s : Spaces) (dirs : List ℕ) (src : ℕ) (env : CloneEnv) : Prop where
  dir : s.Unused dirs env.dir pageDirectorySize
  table : ∀ i < 1024, s.NonKernel src i → env.table i ≠ 0 ∧
    s.Unused dirs (env.table i) pageTableSize ∧
    Apart (env.table i) pageTableSize env.dir pageDirectorySize
  tables : ∀ i < 1024, ∀ j < 1024, s.NonKernel src i → s.NonKernel src j → i ≠ j →
    Apart (env.table i) pageTableSize (env.table j) pageTableSize

/-- The bytes that `clone_table` clears are not in use either, nor are they part of the new
directory or of the tables made before. -/
structure Spares (s : Spaces) (dirs : List ℕ) (src : ℕ) (env : CloneEnv) : Prop where
  old : ∀ i < 1024, s.NonKernel src i → s.Unused dirs (env.table i) pageDirectorySize
  dir : ∀ i < 1024, s.NonKernel src i →
    Apart (env.table i) pageDirectorySize env.dir pageDirectorySize
  tables : ∀ i < 1024, ∀ j < i, s.NonKernel src i → s.NonKernel src j →
    Apart (env.table i) pageDirectorySize (env.table j) pageTableSize

/-- The frames that the clones of the first `n` slots take. -/
def needed (s : Spaces) (src n : ℕ) : ℕ :=
  ∑ i ∈ Finset.range n, if s.NonKernel src i then s.mapped (s.tableOf src i) 1024 else 0

/-! ### The loop of `clone_directory` -/

variable {s s' : Spaces} {dirs : List ℕ} {src : ℕ} {env : CloneEnv} {n : ℕ}

lemma isTable_of_ne {d i : ℕ} (hd : d ∈ dirs) (hi : i < 1024) (h : s.tableOf d i ≠ 0) :
    s.IsTable dirs (s.tableOf d i) := ⟨d, hd, i, hi, rfl, h⟩

/-- The words of a directory belong to it. -/
lemma old_dir {d x : ℕ} (hd : d ∈ dirs) (h : d ≤ x) (h' : x < d + 0x2004) : s.Old dirs x :=
  Or.inl ⟨d, hd, h, h'⟩

/-- The words of a table belong to it. -/
lemma old_table {t x : ℕ} (ht : s.IsTable dirs t) (h : t ≤ x) (h' : x < t + 0x1000) :
    s.Old dirs x := Or.inr ⟨t, ht, h, h'⟩

/-- The clone after the first `n` slots. -/
structure SlotsCloned (s : Spaces) (dirs : List ℕ) (src : ℕ) (env : CloneEnv) (n : ℕ)
    (s' : Spaces) : Prop where
  ext : Ext (s.needed src n) s s'
  old : ∀ x, s.Old dirs x → s'.mem x = s.mem x
  blank : ∀ i < 1024, n ≤ i → s'.tableOf env.dir i = 0
  null : ∀ i < n, s.tableOf src i = 0 → s'.tableOf env.dir i = 0
  shared : ∀ i < n, s.tableOf src i ≠ 0 → ¬ s.NonKernel src i →
    s'.tableOf env.dir i = s.tableOf src i ∧ s'.physOf env.dir i = s.physOf src i
  table : ∀ i < n, s.NonKernel src i → s'.tableOf env.dir i = env.table i
  entries : ∀ i < n, s.NonKernel src i →
    EntriesCloned s (s.tableOf src i) s' (env.table i) 1024
  distinct : ∀ i < n, ∀ j < n, s.NonKernel src i → s.NonKernel src j → i ≠ j →
    ∀ k < 1024, ∀ l < 1024, (s.entryAt (s.tableOf src i) k).frame ≠ 0 →
      (s.entryAt (s.tableOf src j) l).frame ≠ 0 →
      (s'.entryAt (env.table i) k).frame ≠ (s'.entryAt (env.table j) l).frame

lemma blankDirectory_mem {x : ℕ} (hx : x < env.dir ∨ env.dir + 0x2004 ≤ x) :
    (s.blankDirectory env).mem x = s.mem x := by
  simp only [blankDirectory, physicalAddrAddr, pageDirectorySize]
  rw [Function.update_of_ne (by omega)]
  exact if_neg (by omega)

/-- Before the first slot the directory is blank. -/
lemma slotsCloned_zero (hfresh : s.Unused dirs env.dir pageDirectorySize) :
    SlotsCloned s dirs src env 0 (s.blankDirectory env) := by
  refine ⟨?_, fun x hx => ?_, fun i hi _ => ?_, by simp, by simp, by simp, by simp, by simp⟩
  · exact Ext.of_mem s _
  · refine blankDirectory_mem ?_
    by_contra hin
    exact hfresh x (by omega) (by simp only [pageDirectorySize]; omega) hx
  · simp only [tableOf, blankDirectory, physicalAddrAddr, tablesAddr, pageDirectorySize]
    rw [Function.update_of_ne (by omega)]
    exact if_pos (by omega)

/-- The words outside a slot. -/
lemma setSlot_mem {d i t p x : ℕ} (h : x ≠ tablesAddr d i) (h' : x ≠ tablesPhysicalAddr d i) :
    (s.setSlot d i t p).mem x = s.mem x := by
  simp only [setSlot]
  rw [Function.update_of_ne h', Function.update_of_ne h]

lemma setSlot_slot {d i t p : ℕ} : (s.setSlot d i t p).tableOf d i = t ∧
    (s.setSlot d i t p).physOf d i = p := by
  simp only [setSlot, tableOf, physOf, tablesAddr, tablesPhysicalAddr]
  exact ⟨by rw [Function.update_of_ne (by omega), Function.update_self],
    Function.update_self ..⟩

lemma setSlot_other {d i j t p : ℕ} (hi : i < 1024) (hj : j < 1024) (hij : j ≠ i) :
    (s.setSlot d i t p).tableOf d j = s.tableOf d j ∧
      (s.setSlot d i t p).physOf d j = s.physOf d j := by
  simp only [tableOf, physOf]
  exact ⟨setSlot_mem (by simp only [tablesAddr]; omega)
      (by simp only [tablesAddr, tablesPhysicalAddr]; omega),
    setSlot_mem (by simp only [tablesAddr, tablesPhysicalAddr]; omega)
      (by simp only [tablesPhysicalAddr]; omega)⟩

/-- A slot of the new directory is outside everything that exists. -/
lemma setSlot_old {i t p x : ℕ} (hfresh : s.Unused dirs env.dir pageDirectorySize) (hi : i < 1024)
    (hx : s.Old dirs x) : (s'.setSlot env.dir i t p).mem x = s'.mem x := by
  have hout : x < env.dir ∨ env.dir + 0x2004 ≤ x := by
    by_contra hin
    exact hfresh x (by omega) (by simp only [pageDirectorySize]; omega) hx
  exact setSlot_mem (by simp only [tablesAddr]; omega) (by simp only [tablesPhysicalAddr]; omega)

/-- The entries of a table apart from the new directory. -/
lemma setSlot_entryAt {i t p T k : ℕ} (hap : Apart T pageTableSize env.dir pageDirectorySize)
    (hi : i < 1024) (hk : k < 1024) :
    (s'.setSlot env.dir i t p).entryAt T k = s'.entryAt T k := by
  simp only [Apart, pageTableSize, pageDirectorySize] at hap
  rw [entryAt, entryAt, setSlot_mem (by simp only [tablesAddr]; omega)
    (by simp only [tablesPhysicalAddr]; omega)]

lemma needed_succ (s : Spaces) (src n : ℕ) :
    s.needed src (n + 1) = s.needed src n +
      if s.NonKernel src n then s.mapped (s.tableOf src n) 1024 else 0 :=
  Finset.sum_range_succ _ _

lemma needed_mono (s : Spaces) (src : ℕ) {m n : ℕ} (h : m ≤ n) :
    s.needed src m ≤ s.needed src n :=
  Finset.sum_le_sum_of_subset (Finset.range_subset_range.mpr h)

/-- The entries of an existing table are those before the clone. -/
lemma SlotsCloned.entryAt_old (h : SlotsCloned s dirs src env n s') {t k : ℕ}
    (ht : s.IsTable dirs t) (hk : k < 1024) : s'.entryAt t k = s.entryAt t k := by
  rw [entryAt, entryAt, h.old _ (old_table ht (by omega) (by omega))]

/-- The slots of an existing directory are those before the clone. -/
lemma SlotsCloned.slot_old (h : SlotsCloned s dirs src env n s') {d i : ℕ} (hd : d ∈ dirs)
    (hi : i < 1024) : s'.tableOf d i = s.tableOf d i ∧ s'.physOf d i = s.physOf d i :=
  ⟨h.old _ (old_dir hd (by simp only [tablesAddr]; omega) (by simp only [tablesAddr]; omega)),
    h.old _ (old_dir hd (by simp only [tablesPhysicalAddr]; omega)
      (by simp only [tablesPhysicalAddr]; omega))⟩

/-- A slot that is set without taking frames: nothing else changes. -/
lemma SlotsCloned.setSlot (h : SlotsCloned s dirs src env n s') (hfresh : s.Fresh dirs src env)
    (hn : n < 1024) (hnk : ¬ s.NonKernel src n) (ht : s.tableOf src n ≠ 0) :
    SlotsCloned s dirs src env (n + 1)
      (s'.setSlot env.dir n (s.tableOf src n) (s.physOf src n)) := by
  have hother : ∀ i < 1024, i ≠ n →
      (s'.setSlot env.dir n (s.tableOf src n) (s.physOf src n)).tableOf env.dir i
        = s'.tableOf env.dir i ∧
      (s'.setSlot env.dir n (s.tableOf src n) (s.physOf src n)).physOf env.dir i
        = s'.physOf env.dir i := fun i hi hin => setSlot_other hn hi hin
  have hlt : ∀ i < n + 1, s.NonKernel src i → i < n := by
    intro i hi hki
    rcases Nat.lt_succ_iff_lt_or_eq.mp hi with h | rfl
    · exact h
    · exact absurd hki hnk
  have hentry : ∀ i < n, s.NonKernel src i → ∀ k < 1024,
      (s'.setSlot env.dir n (s.tableOf src n) (s.physOf src n)).entryAt (env.table i) k
        = s'.entryAt (env.table i) k := fun i hi hki k hk =>
    setSlot_entryAt (hfresh.table i (by omega) hki).2.2 hn hk
  refine ⟨?_, fun x hx => ?_, fun i hi hni => ?_, fun i hi h0 => ?_, fun i hi h0 hki => ?_,
    fun i hi hki => ?_, fun i hi hki => ?_, fun i hi j hj hki hkj hij k hk l hl => ?_⟩
  · rw [needed_succ, if_neg hnk, Nat.add_zero]
    exact h.ext.changeMem _
  · rw [setSlot_old hfresh.dir hn hx]
    exact h.old x hx
  · rw [(hother i hi (by omega)).1]
    exact h.blank i hi (by omega)
  · rcases Nat.lt_succ_iff_lt_or_eq.mp hi with hi' | rfl
    · rw [(hother i (by omega) (by omega)).1]
      exact h.null i hi' h0
    · exact absurd h0 ht
  · rcases Nat.lt_succ_iff_lt_or_eq.mp hi with hi' | rfl
    · rw [(hother i (by omega) (by omega)).1, (hother i (by omega) (by omega)).2]
      exact h.shared i hi' h0 hki
    · exact setSlot_slot
  · have hi' := hlt i hi hki
    rw [(hother i (by omega) (by omega)).1]
    exact h.table i hi' hki
  · have hi' := hlt i hi hki
    exact (h.entries i hi' hki).mono (Ext.of_mem s' _) (hentry i hi' hki)
  · have hi' := hlt i hi hki
    have hj' := hlt j hj hkj
    rw [hentry i hi' hki k hk, hentry j hj' hkj l hl]
    exact h.distinct i hi' j hj' hki hkj hij k hk l hl

/-- A null slot is skipped. -/
lemma SlotsCloned.skip (h : SlotsCloned s dirs src env n s') (hn : n < 1024)
    (ht : s.tableOf src n = 0) : SlotsCloned s dirs src env (n + 1) s' := by
  have hnk : ¬ s.NonKernel src n := fun hk => hk.1 ht
  have hlt : ∀ i < n + 1, s.tableOf src i ≠ 0 → i < n := by
    intro i hi hti
    rcases Nat.lt_succ_iff_lt_or_eq.mp hi with h | rfl
    · exact h
    · exact absurd ht hti
  refine ⟨?_, h.old, fun i hi hni => h.blank i hi (by omega), fun i hi h0 => ?_,
    fun i hi h0 hki => h.shared i (hlt i hi h0) h0 hki,
    fun i hi hki => h.table i (hlt i hi hki.1) hki,
    fun i hi hki => h.entries i (hlt i hi hki.1) hki,
    fun i hi j hj hki hkj hij => h.distinct i (hlt i hi hki.1) j (hlt j hj hkj.1) hki hkj hij⟩
  · rw [needed_succ, if_neg hnk, Nat.add_zero]
    exact h.ext
  · rcases Nat.lt_succ_iff_lt_or_eq.mp hi with hi' | rfl
    · exact h.null i hi' h0
    · exact h.blank i hn le_rfl

/-- A table that is not the kernel's is cloned. -/
lemma SlotsCloned.clone (h : SlotsCloned s dirs src env n s') (hwf : s.WellFormed dirs)
    (hsrc : src ∈ dirs) (hfresh : s.Fresh dirs src env) (hspares : s.Spares dirs src env)
    (hn : n < 1024) (hnk : s.NonKernel src n) (hfree : s.needed src 1024 ≤ s.frames.freeCount)
    (p : ℕ) :
    ∃ s'', cloneTable (s.tableOf src n) (env.table n) s' = some s'' ∧
      SlotsCloned s dirs src env (n + 1) (s''.setSlot env.dir n (env.table n) p) := by
  have ht : s.IsTable dirs (s.tableOf src n) := isTable_of_ne hsrc hn hnk.1
  have hcount := needed_succ s src n
  rw [if_pos hnk] at hcount
  have hsrcEntry : ∀ k < 1024, s'.entryAt (s.tableOf src n) k = s.entryAt (s.tableOf src n) k :=
    fun k hk => h.entryAt_old ht hk
  have hmapped : s'.mapped (s.tableOf src n) 1024 = s.mapped (s.tableOf src n) 1024 := by
    simp only [mapped, Nat.count_eq_card_filter_range]
    refine congrArg Finset.card (Finset.filter_congr fun k hk => ?_)
    rw [hsrcEntry k (Finset.mem_range.mp hk)]
  have hunused : ∀ x, s.Old dirs x → x < env.table n ∨ env.table n + pageDirectorySize ≤ x := by
    intro x hx
    by_contra hin
    exact hspares.old n hn hnk x (by omega) (by omega) hx
  have hsep : Apart (env.table n) pageDirectorySize (s.tableOf src n) pageTableSize :=
    apart_of_disjoint (by decide) (by decide) fun x h1 h2 h3 =>
      hspares.old n hn hnk x h1 h2 (Or.inr ⟨_, ht, h3⟩)
  have hleft : s'.mapped (s.tableOf src n) 1024 ≤ s'.frames.freeCount := by
    have := needed_mono s src (m := n + 1) (n := 1024) (by omega)
    have := h.ext.count
    omega
  obtain ⟨s'', hs'', hext, hmem, hcl⟩ := cloneTable_spec hsep (h.ext.mono 0 hwf.usedZero)
    (fun k hk => by rw [hsrcEntry k hk]; exact h.ext.mono _ (hwf.used _ ht k hk)) hleft
  rw [hmapped] at hext
  refine ⟨s'', hs'', ?_⟩
  -- what the clearing and the copies leave of the clone so far
  have hdirApart := hspares.dir n hn hnk
  have hslot : ∀ i < 1024, s''.tableOf env.dir i = s'.tableOf env.dir i ∧
      s''.physOf env.dir i = s'.physOf env.dir i := by
    intro i hi
    simp only [Apart, pageDirectorySize] at hdirApart
    refine ⟨hmem _ ?_, hmem _ ?_⟩
    · simp only [tablesAddr, pageDirectorySize]; omega
    · simp only [tablesPhysicalAddr, pageDirectorySize]; omega
  have hsame : ∀ i < 1024, i ≠ n → (s''.setSlot env.dir n (env.table n) p).tableOf env.dir i
        = s'.tableOf env.dir i ∧
      (s''.setSlot env.dir n (env.table n) p).physOf env.dir i = s'.physOf env.dir i := by
    intro i hi hin
    rw [(setSlot_other hn hi hin).1, (setSlot_other hn hi hin).2]
    exact hslot i hi
  have hentry : ∀ i < n, s.NonKernel src i → ∀ k < 1024,
      (s''.setSlot env.dir n (env.table n) p).entryAt (env.table i) k
        = s'.entryAt (env.table i) k := by
    intro i hi hki k hk
    have hap := hspares.tables n hn i hi hnk hki
    simp only [Apart, pageDirectorySize, pageTableSize] at hap
    rw [setSlot_entryAt (hfresh.table i (by omega) hki).2.2 hn hk, entryAt, entryAt,
      hmem _ (by simp only [pageDirectorySize]; omega)]
  have hnew : ∀ k < 1024, (s''.setSlot env.dir n (env.table n) p).entryAt (env.table n) k
      = s''.entryAt (env.table n) k := fun k hk =>
    setSlot_entryAt (hfresh.table n hn hnk).2.2 hn hk
  have hext' : Ext (s.mapped (s.tableOf src n) 1024) s'
      (s''.setSlot env.dir n (env.table n) p) := hext.changeMem _
  -- frames of earlier slots were used when those of this slot were still free
  have hdiff : ∀ i < n, s.NonKernel src i → ∀ k < 1024, ∀ l < 1024,
      (s.entryAt (s.tableOf src i) k).frame ≠ 0 → (s.entryAt (s.tableOf src n) l).frame ≠ 0 →
      (s'.entryAt (env.table i) k).frame ≠ (s''.entryAt (env.table n) l).frame := by
    intro i hi hki k hk l hl hfk hfl heq
    have hused := ((h.entries i hi hki).entry k hk).used hfk
    have hfree' := (hcl.entry l hl).unused (by rw [hsrcEntry l hl]; exact hfl)
    rw [← heq, hused] at hfree'
    exact Bool.false_ne_true hfree'.symm
  have hcases : ∀ i < n + 1, i < n ∨ i = n := fun i hi => Nat.lt_succ_iff_lt_or_eq.mp hi
  refine ⟨?_, fun x hx => ?_, fun i hi hni => ?_, fun i hi h0 => ?_, fun i hi h0 hki => ?_,
    fun i hi hki => ?_, fun i hi hki => ?_, fun i hi j hj hki hkj hij k hk l hl hfk hfl => ?_⟩
  · rw [hcount]
    exact h.ext.trans hext'
  · rw [setSlot_old hfresh.dir hn hx, hmem x (hunused x hx)]
    exact h.old x hx
  · rw [(hsame i hi (by omega)).1]
    exact h.blank i hi (by omega)
  · rcases hcases i hi with hi' | rfl
    · rw [(hsame i (by omega) (by omega)).1]
      exact h.null i hi' h0
    · exact absurd h0 hnk.1
  · rcases hcases i hi with hi' | rfl
    · rw [(hsame i (by omega) (by omega)).1, (hsame i (by omega) (by omega)).2]
      exact h.shared i hi' h0 hki
    · exact absurd hnk hki
  · rcases hcases i hi with hi' | rfl
    · rw [(hsame i (by omega) (by omega)).1]
      exact h.table i hi' hki
    · exact setSlot_slot.1
  · rcases hcases i hi with hi' | rfl
    · exact (h.entries i hi' hki).mono hext' (hentry i hi' hki)
    · refine ⟨fun k hk => ?_, fun j hj k hk hfj hfk heq => ?_⟩
      · exact ((hcl.entry k hk).mono (Ext.of_mem s'' _) (hnew k hk)).base h.ext (hsrcEntry k hk)
          (hwf.used _ ht k hk)
      · rw [hnew j hj, hnew k hk] at heq
        exact hcl.inj j hj k hk (by rwa [hsrcEntry j hj]) (by rwa [hsrcEntry k hk]) heq
  · rcases hcases i hi with hi' | rfl
    · rw [hentry i hi' hki k hk]
      rcases hcases j hj with hj' | rfl
      · rw [hentry j hj' hkj l hl]
        exact h.distinct i hi' j hj' hki hkj hij k hk l hl hfk hfl
      · rw [hnew l hl]
        exact hdiff i hi' hki k hk l hl hfk hfl
    · rcases hcases j hj with hj' | rfl
      · rw [hnew k hk, hentry j hj' hkj l hl]
        exact (hdiff j hj' hkj l hl k hk hfl hfk).symm
      · exact absurd rfl hij

/-- **The loop of `clone_directory`.** -/
lemma cloneSlots_spec (hwf : s.WellFormed dirs) (hsrc : src ∈ dirs)
    (hfresh : s.Fresh dirs src env) (hspares : s.Spares dirs src env)
    (hfree : s.needed src 1024 ≤ s.frames.freeCount) (hn : n ≤ 1024) :
    ∃ s', cloneSlots src env n (s.blankDirectory env) = some s' ∧
      SlotsCloned s dirs src env n s' := by
  induction n with
  | zero => exact ⟨_, rfl, slotsCloned_zero hfresh.dir⟩
  | succ n ih =>
      obtain ⟨s₁, hs₁, h₁⟩ := ih (by omega)
      have hslot := h₁.slot_old hsrc (i := n) (by omega)
      have hker := h₁.slot_old hwf.kernel (i := n) (by omega)
      have hturn : cloneSlots src env (n + 1) (s.blankDirectory env) = cloneSlot src env n s₁ := by
        rw [cloneSlots, hs₁, Option.bind_some]
      rw [hturn, cloneSlot]
      have h1 : s₁.mem (tablesAddr src n) = s.tableOf src n := hslot.1
      have h2 : s₁.mem (tablesPhysicalAddr src n) = s.physOf src n := hslot.2
      have h3 : s₁.mem (tablesAddr s₁.kernelDirectory n) = s.tableOf s.kernelDirectory n := by
        rw [h₁.ext.kernel]
        exact hker.1
      simp only [h1, h2, h3]
      by_cases h0 : s.tableOf src n = 0
      · exact ⟨s₁, if_pos h0, h₁.skip (by omega) h0⟩
      · by_cases hk : s.tableOf s.kernelDirectory n = s.tableOf src n
        · rw [if_neg h0, if_pos hk]
          exact ⟨_, rfl, h₁.setSlot hfresh (by omega) (fun hnk => hnk.2 hk) h0⟩
        · obtain ⟨s₂, hs₂, h₂⟩ := h₁.clone hwf hsrc hfresh hspares (by omega) ⟨h0, hk⟩ hfree
            (env.tablePhys n ||| 0x7)
          rw [if_neg h0, if_neg hk, hs₂]
          exact ⟨_, rfl, h₂⟩

/-! ### The clone -/

/-- The directory `dir` in `s'` is an isolated clone of `src` in `s`. -/
structure ClonedFrom (s : Spaces) (dirs : List ℕ) (src dir : ℕ) (s' : Spaces) : Prop where
  shared : ∀ i < 1024, s.tableOf s.kernelDirectory i ≠ 0 →
    s'.tableOf dir i = s.tableOf s.kernelDirectory i ∧
      s'.physOf dir i = s.physOf s.kernelDirectory i
  table : ∀ i < 1024, s.NonKernel src i → s'.tableOf dir i ≠ 0
  mapped : ∀ i < 1024, s.NonKernel src i → ∀ k < 1024,
    (s'.entryAt (s'.tableOf dir i) k).present = true ↔
      (s.entryAt (s.tableOf src i) k).present = true
  fresh : ∀ i < 1024, s.NonKernel src i → ∀ k < 1024,
    (s.entryAt (s.tableOf src i) k).present = true →
      (s'.entryAt (s'.tableOf dir i) k).frame ≠ 0 ∧
      ∀ t, s.IsTable dirs t → ∀ l < 1024,
        (s.entryAt t l).frame ≠ (s'.entryAt (s'.tableOf dir i) k).frame
  own : ∀ i < 1024, s.NonKernel src i → ∀ k < 1024,
    (s.entryAt (s.tableOf src i) k).present = true →
      ∀ j < 1024, s'.tableOf dir j ≠ 0 → ∀ l < 1024,
        (s'.entryAt (s'.tableOf dir j) l).frame = (s'.entryAt (s'.tableOf dir i) k).frame →
        j = i ∧ l = k
  contents : ∀ i < 1024, s.NonKernel src i → ∀ k < 1024,
    (s.entryAt (s.tableOf src i) k).present = true → ∀ w < 1024,
      s'.phys ((s'.entryAt (s'.tableOf dir i) k).frame * 0x1000 + 4 * w)
        = s.phys ((s.entryAt (s.tableOf src i) k).frame * 0x1000 + 4 * w)
  unchanged : ∀ x, s.Old dirs x → s'.mem x = s.mem x
  frames : ∀ d ∈ dirs, ∀ i < 1024, s.NonKernel d i → ∀ k < 1024,
    (s.entryAt (s.tableOf d i) k).present = true → ∀ w < 1024,
      s'.phys ((s.entryAt (s.tableOf d i) k).frame * 0x1000 + 4 * w)
        = s.phys ((s.entryAt (s.tableOf d i) k).frame * 0x1000 + 4 * w)

end Spaces

end Matanos
