import Matanos.Heap.Search
import Matanos.Heap.Bounds
import Matanos.Paging.Clone

/-!
`clone_directory` and `clone_table` on the kernel heap, with the stores they make.

The directories and tables lie in the memory of the heap and below it. Every store is kept with the
payload that the pointer it goes through was returned for.

* `Store`, `Access`, `Cloning`: the stores, where they belong, and the heap with those made so far;
* `Cloner`: the paging that the functions work with;
* `kmallocAp`, `cloneEntry`, `cloneTable`, `cloneSlot`, `cloneDirectory`: the functions;
* `Access.Inside`, `OwnBytes`: a store stays in its payload, or in any of them;
* `clone_directory_writes_own_iff`: the stores stay in their payloads if and only if no table is
  copied;
* `clone_directory_clears_beyond_table`: a copy of an empty table.
-/

namespace Matanos

open Lib

variable {π : Type*}

/-- An assignment of a word, or a `memset` to 0. -/
inductive Store where
  | word (addr value : ℕ)
  | zero (addr len : ℕ)

namespace Store

/-- Where the store begins. -/
def addr : Store → ℕ
  | word a _ => a
  | zero a _ => a

/-- How many bytes it is of. -/
def len : Store → ℕ
  | word _ _ => 4
  | zero _ n => n

/-- The memory after the store. -/
def apply (m : Bytes) : Store → Bytes
  | word a v => write32 m a v
  | zero a n => fun x => if a ≤ x ∧ x < a + n then 0 else m x

/-- The bytes outside a store. -/
lemma apply_byte {m : Bytes} {st : Store} {x : ℕ} (h : x < st.addr ∨ st.addr + st.len ≤ x) :
    st.apply m x = m x := by
  cases st with
  | word a v => exact write32_byte h
  | zero a n =>
      simp only [addr, len] at h
      exact if_neg (by omega)

end Store

/-- A store through the pointer to the `size` bytes that `kmalloc_ap` returned at `block`. -/
structure Access where
  block : ℕ
  size : ℕ
  store : Store

/-- The store stays in the payload of its pointer. -/
def Access.Inside (w : Access) : Prop :=
  w.block ≤ w.store.addr ∧ w.store.addr + w.store.len ≤ w.block + w.size

/-- The heap, with the stores made so far. -/
structure Cloning (π : Type*) where
  heap : Kheap π
  accesses : List Access

/-- The paging of `clone_directory`: the pages of the heap, the physical address of a virtual one by the
kernel directory, `alloc_frame`, `copy_page_physical`, and the global `kernel_directory`. -/
structure Cloner (π : Type*) where
  pager : Pager π
  physAddr : ℕ → π → ℕ
  allocFrame : Page → Bool → Bool → π → Except Halt (Page × π)
  copyPagePhysical : ℕ → ℕ → π → π
  kernelDirectory : ℕ

namespace Cloning

/-- One store. -/
def store (w : Access) (c : Cloning π) : Cloning π :=
  { heap := { c.heap with mem := w.store.apply c.heap.mem }, accesses := w :: c.accesses }

/-- A word of memory. -/
def word (c : Cloning π) (a : ℕ) : ℕ := read32 c.heap.mem a

variable (C : Cloner π)

/-- `kmalloc_ap`: the address and the physical one. -/
def kmallocAp (size : ℕ) (c : Cloning π) : Except Halt (ℕ × ℕ × Cloning π) :=
  (c.heap.alloc C.pager size true).map fun (addr, heap) =>
    (addr, C.physAddr addr heap.pages, { c with heap := heap })

/-- The body of the loop of `clone_table`. -/
def cloneEntry (src table i : ℕ) (c : Cloning π) : Except Halt (Cloning π) :=
  let page := Page.ofWord (c.word (src + 4 * i))
  if page.frame ≠ 0 then
    (C.allocFrame (Page.ofWord (c.word (table + 4 * i))) false true c.heap.pages).map
      fun (p, pages) =>
        let p := p.orFlags page
        let pages := C.copyPagePhysical (page.frame * 0x1000) (p.frame * 0x1000) pages
        let c := c.store ⟨table, pageTableSize, .word (table + 4 * i) p.toWord⟩
        { c with heap := { c.heap with pages := pages } }
  else .ok c

/-- The first `n` turns of the loop of `clone_table`. -/
def cloneEntries (src table : ℕ) : ℕ → Cloning π → Except Halt (Cloning π)
  | 0, c => .ok c
  | n + 1, c => (cloneEntries src table n c).bind (cloneEntry C src table n)

/-- `clone_table`, with the table and its physical address. -/
def cloneTable (src : ℕ) (c : Cloning π) : Except Halt (ℕ × ℕ × Cloning π) :=
  (kmallocAp C pageTableSize c).bind fun (table, phys, c) =>
    let c := c.store ⟨table, pageTableSize, .zero table pageDirectorySize⟩
    (cloneEntries C src table 1024 c).map fun c => (table, phys, c)

/-- The assignments of `dir->tables[i]` and `dir->tablesPhysical[i]`. -/
def setSlot (dir i table phys : ℕ) (c : Cloning π) : Cloning π :=
  (c.store ⟨dir, pageDirectorySize, .word (tablesAddr dir i) table⟩).store
    ⟨dir, pageDirectorySize, .word (tablesPhysicalAddr dir i) phys⟩

/-- The body of the loop of `clone_directory`. -/
def cloneSlot (src dir i : ℕ) (c : Cloning π) : Except Halt (Cloning π) :=
  let table := c.word (tablesAddr src i)
  if table = 0 then .ok c
  else if c.word (tablesAddr C.kernelDirectory i) = table then
    .ok (c.setSlot dir i table (c.word (tablesPhysicalAddr src i)))
  else
    (cloneTable C table c).map fun (table, phys, c) => c.setSlot dir i table (phys ||| 0x7)

/-- The first `n` turns of the loop of `clone_directory`. -/
def cloneSlots (src dir : ℕ) : ℕ → Cloning π → Except Halt (Cloning π)
  | 0, c => .ok c
  | n + 1, c => (cloneSlots src dir n c).bind (cloneSlot C src dir n)

/-- The directory before the loop of `clone_directory`: cleared, with its physical address. -/
def blankDirectory (dir phys : ℕ) (c : Cloning π) : Cloning π :=
  let c := c.store ⟨dir, pageDirectorySize, .zero dir pageDirectorySize⟩
  let offset := sub32 (tablesPhysicalAddr dir 0) dir
  c.store ⟨dir, pageDirectorySize, .word (physicalAddrAddr dir) (add32 phys offset)⟩

/-- `clone_directory`, with the directory it returns. -/
def cloneDirectory (src : ℕ) (c : Cloning π) : Except Halt (ℕ × Cloning π) :=
  (kmallocAp C pageDirectorySize c).bind fun (dir, phys, c) =>
    (cloneSlots C src dir 1024 (c.blankDirectory dir phys)).map fun c => (dir, c)

/-! ### The stores -/

variable {C : Cloner π} {c c' c'' : Cloning π} {src table dir phys n i : ℕ}

/-- The stores of `c` are among those of `c'`, and the others stay in their payloads. -/
structure Tidy (c c' : Cloning π) : Prop where
  kept : ∀ w ∈ c.accesses, w ∈ c'.accesses
  inside : ∀ w ∈ c'.accesses, w ∈ c.accesses ∨ w.Inside

lemma Tidy.refl (c : Cloning π) : Tidy c c := ⟨fun _ => id, fun _ => Or.inl⟩

lemma Tidy.trans (h : Tidy c c') (h' : Tidy c' c'') : Tidy c c'' where
  kept w hw := h'.kept w (h.kept w hw)
  inside w hw := (h'.inside w hw).elim (h.inside w) Or.inr

/-- A store in its payload. -/
lemma Tidy.store {w : Access} (h : Tidy c c') (hw : w.Inside) : Tidy c (c'.store w) where
  kept v hv := List.mem_cons_of_mem _ (h.kept v hv)
  inside v hv := by
    rcases List.mem_cons.mp hv with rfl | hv
    · exact Or.inr hw
    · exact h.inside v hv

lemma setSlot_tidy (hi : i < 1024) : Tidy c (c.setSlot dir i table phys) := by
  refine ((Tidy.refl c).store ?_).store ?_
  · simp only [Access.Inside, Store.addr, Store.len, tablesAddr, pageDirectorySize]
    omega
  · simp only [Access.Inside, Store.addr, Store.len, tablesPhysicalAddr, pageDirectorySize]
    omega

lemma cloneEntry_tidy (hi : i < 1024) (hok : cloneEntry C src table i c = .ok c') : Tidy c c' := by
  rw [cloneEntry] at hok
  split_ifs at hok with hframe
  · cases halloc : C.allocFrame (Page.ofWord (c.word (table + 4 * i))) false true c.heap.pages with
    | error e =>
        rw [halloc] at hok
        exact absurd hok (by simp [Except.map])
    | ok res =>
        rw [halloc] at hok
        rw [← Except.ok.inj hok]
        have hin : Access.Inside ⟨table, pageTableSize, .word (table + 4 * i)
            (res.1.orFlags (Page.ofWord (c.word (src + 4 * i)))).toWord⟩ := by
          simp only [Access.Inside, Store.addr, Store.len, pageTableSize]
          omega
        have htidy := (Tidy.refl c).store hin
        exact ⟨htidy.kept, htidy.inside⟩
  · rw [← Except.ok.inj hok]
    exact Tidy.refl c

lemma cloneEntries_tidy (hn : n ≤ 1024) (hok : cloneEntries C src table n c = .ok c') : Tidy c c' := by
  induction n generalizing c' with
  | zero =>
      rw [← Except.ok.inj hok]
      exact Tidy.refl c
  | succ n ih =>
      rw [cloneEntries] at hok
      cases hprev : cloneEntries C src table n c with
      | error e =>
          rw [hprev] at hok
          exact absurd hok (by simp [Except.bind])
      | ok c₁ =>
          rw [hprev] at hok
          exact (ih (by omega) hprev).trans (cloneEntry_tidy (by omega) hok)

/-- **A copied table is cleared beyond its payload.** -/
lemma cloneTable_accesses (hok : cloneTable C src c = .ok (table, phys, c')) :
    (∀ w ∈ c.accesses, w ∈ c'.accesses) ∧
      ⟨table, pageTableSize, .zero table pageDirectorySize⟩ ∈ c'.accesses := by
  rw [cloneTable] at hok
  cases hmalloc : kmallocAp C pageTableSize c with
  | error e =>
      rw [hmalloc] at hok
      exact absurd hok (by simp [Except.bind])
  | ok res =>
      obtain ⟨T, phys₁, c₁⟩ := res
      have hacc : c₁.accesses = c.accesses := by
        rw [kmallocAp] at hmalloc
        cases halloc : c.heap.alloc C.pager pageTableSize true with
        | error e =>
            rw [halloc] at hmalloc
            exact absurd hmalloc (by simp [Except.map])
        | ok res =>
            rw [halloc] at hmalloc
            obtain ⟨-, hrest⟩ := Prod.mk.inj (Except.ok.inj hmalloc)
            rw [← (Prod.mk.inj hrest).2]
      rw [hmalloc] at hok
      simp only [Except.bind] at hok
      obtain ⟨c₂, hc₂⟩ : ∃ c₂, c₂ = c₁.store ⟨T, pageTableSize, .zero T pageDirectorySize⟩ := ⟨_, rfl⟩
      rw [← hc₂] at hok
      have hacc₂ : c₂.accesses = ⟨T, pageTableSize, .zero T pageDirectorySize⟩ :: c.accesses := by
        rw [hc₂, ← hacc]
        rfl
      cases hloop : cloneEntries C src T 1024 c₂ with
      | error e =>
          rw [hloop] at hok
          exact absurd hok (by simp [Except.map])
      | ok c₃ =>
          rw [hloop] at hok
          obtain ⟨rfl, hrest⟩ := Prod.mk.inj (Except.ok.inj hok)
          rw [← (Prod.mk.inj hrest).2]
          have htidy := cloneEntries_tidy le_rfl hloop
          refine ⟨fun w hw => htidy.kept w ?_, htidy.kept _ ?_⟩
          · rw [hacc₂]
            exact List.mem_cons_of_mem _ hw
          · rw [hacc₂]
            exact List.mem_cons_self

/-! ### The loop of `clone_directory` -/

/-- The slots of the source below `n` are empty, or those of the kernel directory. -/
def Shared (kernel : ℕ) (m : Bytes) (src n : ℕ) : Prop :=
  ∀ i < n, read32 m (tablesAddr src i) = 0 ∨
    read32 m (tablesAddr kernel i) = read32 m (tablesAddr src i)

/-- The tables of the directory at `a` are not in the new directory. -/
def Apart (dir a : ℕ) : Prop := a + 0x1000 ≤ dir ∨ dir + pageDirectorySize ≤ a

/-- The slots of a directory apart from the new one are kept. -/
lemma Shared.congr {kernel : ℕ} {m m' : Bytes}
    (hkernel : AgreeOn m m' kernel (kernel + 0x1000)) (hsrc : AgreeOn m m' src (src + 0x1000))
    (hn : n ≤ 1024) : Shared kernel m' src n ↔ Shared kernel m src n := by
  refine forall_congr' fun i => imp_congr_right fun hi => ?_
  have hs : read32 m' (tablesAddr src i) = read32 m (tablesAddr src i) := by
    simp only [tablesAddr]
    exact hsrc.read32 (by omega) (by omega)
  have hk : read32 m' (tablesAddr kernel i) = read32 m (tablesAddr kernel i) := by
    simp only [tablesAddr]
    exact hkernel.read32 (by omega) (by omega)
  rw [hs, hk]

lemma setSlot_byte (hi : i < 1024) {x : ℕ} (hx : x < dir ∨ dir + pageDirectorySize ≤ x) :
    (c.setSlot dir i table phys).heap.mem x = c.heap.mem x := by
  simp only [pageDirectorySize] at hx
  change (Store.word (tablesPhysicalAddr dir i) phys).apply
    ((Store.word (tablesAddr dir i) table).apply c.heap.mem) x = _
  rw [Store.apply_byte (by simp only [Store.addr, Store.len, tablesPhysicalAddr]; omega),
    Store.apply_byte (by simp only [Store.addr, Store.len, tablesAddr]; omega)]

/-- What one turn does: nothing, the same table, or a copy. -/
lemma cloneSlot_cases (hok : cloneSlot C src dir i c = .ok c') :
    (c.word (tablesAddr src i) = 0 ∧ c' = c) ∨
      (c.word (tablesAddr C.kernelDirectory i) = c.word (tablesAddr src i) ∧
        ∃ table phys, c' = c.setSlot dir i table phys) ∨
      (c.word (tablesAddr src i) ≠ 0 ∧
        c.word (tablesAddr C.kernelDirectory i) ≠ c.word (tablesAddr src i) ∧
        ∃ T phys c₁, cloneTable C (c.word (tablesAddr src i)) c = .ok (T, phys, c₁) ∧
          c' = c₁.setSlot dir i T (phys ||| 0x7)) := by
  rw [cloneSlot] at hok
  by_cases hzero : c.word (tablesAddr src i) = 0
  · rw [if_pos hzero] at hok
    exact Or.inl ⟨hzero, (Except.ok.inj hok).symm⟩
  · rw [if_neg hzero] at hok
    by_cases hsame : c.word (tablesAddr C.kernelDirectory i) = c.word (tablesAddr src i)
    · rw [if_pos hsame] at hok
      exact Or.inr (Or.inl ⟨hsame, _, _, (Except.ok.inj hok).symm⟩)
    · rw [if_neg hsame] at hok
      refine Or.inr (Or.inr ⟨hzero, hsame, ?_⟩)
      cases htable : cloneTable C (c.word (tablesAddr src i)) c with
      | error e =>
          rw [htable] at hok
          exact absurd hok (by simp [Except.map])
      | ok res =>
          obtain ⟨T, phys, c₁⟩ := res
          rw [htable] at hok
          exact ⟨T, phys, c₁, rfl, (Except.ok.inj hok).symm⟩

lemma cloneSlot_kept (hok : cloneSlot C src dir i c = .ok c') (hi : i < 1024) :
    ∀ w ∈ c.accesses, w ∈ c'.accesses := by
  rcases cloneSlot_cases hok with ⟨-, rfl⟩ | ⟨-, T, phys, rfl⟩ | ⟨-, -, T, phys, c₁, htable, rfl⟩
  · exact fun _ => id
  · exact (setSlot_tidy hi).kept
  · exact fun w hw => (setSlot_tidy hi).kept w ((cloneTable_accesses htable).1 w hw)

/-- **The loop of `clone_directory`**: while no table is copied the stores are in the directory; the
first table that is copied is cleared beyond its payload. -/
lemma cloneSlots_spec (hn : n ≤ 1024) (hsrc : Apart dir src) (hkernel : Apart dir C.kernelDirectory)
    (hok : cloneSlots C src dir n c = .ok c') :
    (Shared C.kernelDirectory c.heap.mem src n → Tidy c c' ∧
        ∀ x, x < dir ∨ dir + pageDirectorySize ≤ x → c'.heap.mem x = c.heap.mem x) ∧
      (∀ w ∈ c.accesses, w ∈ c'.accesses) ∧
      (¬ Shared C.kernelDirectory c.heap.mem src n →
        ∃ T, ⟨T, pageTableSize, .zero T pageDirectorySize⟩ ∈ c'.accesses) := by
  induction n generalizing c' with
  | zero =>
      rw [← Except.ok.inj hok]
      exact ⟨fun _ => ⟨Tidy.refl c, fun _ _ => rfl⟩, fun _ => id,
        fun h => absurd (fun i hi => absurd hi (Nat.not_lt_zero i)) h⟩
  | succ n ih =>
      rw [cloneSlots] at hok
      cases hprev : cloneSlots C src dir n c with
      | error e =>
          rw [hprev] at hok
          exact absurd hok (by simp [Except.bind])
      | ok c₁ =>
          rw [hprev] at hok
          simp only [Except.bind] at hok
          obtain ⟨hshared, hkept, hcopied⟩ := ih (by omega) hprev
          have hkept' := cloneSlot_kept hok (by omega)
          by_cases hbefore : Shared C.kernelDirectory c.heap.mem src n
          · obtain ⟨htidy, hbyte⟩ := hshared hbefore
            have hword : ∀ a, Apart dir a → c₁.word (tablesAddr a n) = c.word (tablesAddr a n) := by
              intro a ha
              rw [Apart] at ha
              exact read32_congr fun x h1 h2 => hbyte x (by simp only [tablesAddr] at h1 h2; omega)
            have hslot := cloneSlot_cases hok
            rw [hword src hsrc, hword C.kernelDirectory hkernel] at hslot
            have hnext : Shared C.kernelDirectory c.heap.mem src (n + 1) ↔
                c.word (tablesAddr src n) = 0 ∨
                  c.word (tablesAddr C.kernelDirectory n) = c.word (tablesAddr src n) := by
              refine ⟨fun h => h n (Nat.lt_succ_self n), fun h i hi => ?_⟩
              rcases Nat.lt_succ_iff_lt_or_eq.mp hi with hlt | rfl
              · exact hbefore i hlt
              · exact h
            rw [hnext]
            rcases hslot with ⟨hzero, rfl⟩ | ⟨hsame, T, phys, rfl⟩ | ⟨hne, hother, T, phys, c₂, htable, rfl⟩
            · exact ⟨fun _ => ⟨htidy, hbyte⟩, hkept, fun h => absurd (Or.inl hzero) h⟩
            · refine ⟨fun _ => ⟨htidy.trans (setSlot_tidy (by omega)), fun x hx => ?_⟩,
                fun w hw => hkept' w (hkept w hw), fun h => absurd (Or.inr hsame) h⟩
              rw [setSlot_byte (by omega) hx]
              exact hbyte x hx
            · refine ⟨fun h => absurd h (not_or.mpr ⟨hne, hother⟩), fun w hw => hkept' w (hkept w hw),
                fun _ => ⟨T, ?_⟩⟩
              exact (setSlot_tidy (by omega)).kept _ (cloneTable_accesses htable).2
          · obtain ⟨T, hT⟩ := hcopied hbefore
            have hnot : ¬ Shared C.kernelDirectory c.heap.mem src (n + 1) := fun h =>
              hbefore fun i hi => h i (by omega)
            exact ⟨fun h => absurd h hnot, fun w hw => hkept' w (hkept w hw),
              fun _ => ⟨T, hkept' _ hT⟩⟩

/-! ### Stores outside the payloads -/

/-- Every byte that is stored lies in one of the payloads. -/
def OwnBytes (ws : List Access) : Prop :=
  ∀ w ∈ ws, ∀ x, w.store.addr ≤ x → x < w.store.addr + w.store.len →
    ∃ v ∈ ws, v.block ≤ x ∧ x < v.block + v.size

/-- The blocks, with their headers and footers, do not overlap. -/
def BlocksApart (ws : List Access) : Prop :=
  ∀ w ∈ ws, ∀ v ∈ ws, w.block = v.block ∧ w.size = v.size ∨
    w.block + w.size + 20 ≤ v.block ∨ v.block + v.size + 20 ≤ w.block

/-- Stores in their payloads are in one of them. -/
lemma ownBytes_of_inside {ws : List Access} (h : ∀ w ∈ ws, w.Inside) : OwnBytes ws := by
  intro w hw x hlo hhi
  obtain ⟨h1, h2⟩ := h w hw
  exact ⟨w, hw, by omega, by omega⟩

/-- The first byte behind a table is in no payload when the blocks do not overlap. -/
lemma not_ownBytes {ws : List Access} (happart : BlocksApart ws) {T : ℕ}
    (hT : ⟨T, pageTableSize, .zero T pageDirectorySize⟩ ∈ ws) : ¬ OwnBytes ws := by
  intro h
  obtain ⟨v, hv, hlo, hhi⟩ := h _ hT (T + pageTableSize)
    (by simp only [Store.addr]; omega)
    (by simp only [Store.addr, Store.len, pageTableSize, pageDirectorySize]; omega)
  rcases happart _ hT v hv with ⟨hblock, hsize⟩ | hright | hleft
  · simp only at hblock hsize
    omega
  · simp only at hright
    omega
  · simp only at hleft
    omega

/-- The directory at `a` is apart from the new one at `dir`, and `alloc` has left it as it was. -/
def Untouched (s s₁ : Kheap π) (dir a : ℕ) : Prop :=
  Apart dir a ∧ AgreeOn s.mem s₁.mem a (a + 0x1000)

/-- What the directory is like before the loop. -/
lemma blankDirectory_spec :
    Tidy c (c.blankDirectory dir phys) ∧
      ∀ x, x < dir ∨ dir + pageDirectorySize ≤ x →
        (c.blankDirectory dir phys).heap.mem x = c.heap.mem x := by
  constructor
  · refine ((Tidy.refl c).store ?_).store ?_
    · simp only [Access.Inside, Store.addr, Store.len]
      omega
    · simp only [Access.Inside, Store.addr, Store.len, physicalAddrAddr, pageDirectorySize]
      omega
  · intro x hx
    simp only [pageDirectorySize] at hx
    change (Store.word (physicalAddrAddr dir) _).apply
      ((Store.zero dir pageDirectorySize).apply c.heap.mem) x = _
    rw [Store.apply_byte (by simp only [Store.addr, Store.len, physicalAddrAddr]; omega),
      Store.apply_byte (by simp only [Store.addr, Store.len, pageDirectorySize]; omega)]

/-- A source that is shared is cloned without a frame or another block. -/
lemma cloneSlots_returns (hn : n ≤ 1024) (hsrc : Apart dir src) (hkernel : Apart dir C.kernelDirectory)
    (h : Shared C.kernelDirectory c.heap.mem src n) : ∃ c', cloneSlots C src dir n c = .ok c' := by
  induction n with
  | zero => exact ⟨c, rfl⟩
  | succ n ih =>
      have hbefore : Shared C.kernelDirectory c.heap.mem src n := fun i hi => h i (by omega)
      obtain ⟨c₁, hprev⟩ := ih (by omega) hbefore
      have hbyte := ((cloneSlots_spec (by omega) hsrc hkernel hprev).1 hbefore).2
      have hword : ∀ a, Apart dir a → c₁.word (tablesAddr a n) = c.word (tablesAddr a n) := by
        intro a ha
        rw [Apart] at ha
        exact read32_congr fun x h1 h2 => hbyte x (by simp only [tablesAddr] at h1 h2; omega)
      rw [cloneSlots, hprev, Except.bind, cloneSlot, hword src hsrc, hword C.kernelDirectory hkernel]
      by_cases hzero : c.word (tablesAddr src n) = 0
      · exact ⟨c₁, if_pos hzero⟩
      · have hsame := (h n (Nat.lt_succ_self n)).resolve_left hzero
        exact ⟨_, (if_neg hzero).trans (if_pos hsame)⟩

/-- `clone_directory` by its parts. -/
lemma cloneDirectory_eq {s s₁ : Kheap π} (halloc : s.alloc C.pager pageDirectorySize true = .ok (dir, s₁))
    (hloop : cloneSlots C src dir 1024 (blankDirectory dir (C.physAddr dir s₁.pages) ⟨s₁, []⟩) = .ok c) :
    cloneDirectory C src ⟨s, []⟩ = .ok (dir, c) := by
  rw [cloneDirectory, kmallocAp, halloc]
  simp only [Except.map, Except.bind, hloop]

/-- `clone_table` by its parts. -/
lemma cloneTable_eq {s : Kheap π} (halloc : c.heap.alloc C.pager pageTableSize true = .ok (table, s))
    (hloop : cloneEntries C src table 1024
      (Cloning.store ⟨table, pageTableSize, .zero table pageDirectorySize⟩ { c with heap := s })
        = .ok c') :
    cloneTable C src c = .ok (table, C.physAddr table s.pages, c') := by
  rw [cloneTable, kmallocAp, halloc]
  simp only [Except.map, Except.bind, hloop]

/-- An empty table is copied without a frame. -/
lemma cloneEntries_empty (h : ∀ i < n, c.word (src + 4 * i) = 0) :
    cloneEntries C src table n c = .ok c := by
  induction n with
  | zero => rfl
  | succ n ih =>
      have hframe : ¬ (Page.ofWord (c.word (src + 4 * n))).frame ≠ 0 := by
        rw [h n (Nat.lt_succ_self n)]
        simp [Page.ofWord]
      rw [cloneEntries, ih fun i hi => h i (by omega), Except.bind, cloneEntry]
      exact if_neg hframe

/-- When only the first slot is set, one turn is all. -/
lemma cloneSlots_first (hfirst : cloneSlot C src dir 0 c = .ok c')
    (h : ∀ i, 0 < i → i ≤ n → c'.word (tablesAddr src i) = 0) :
    cloneSlots C src dir (n + 1) c = .ok c' := by
  induction n with
  | zero => exact hfirst
  | succ n ih =>
      rw [cloneSlots, ih fun i h1 h2 => h i h1 (by omega), Except.bind, cloneSlot]
      exact if_pos (h (n + 1) (by omega) le_rfl)

end Cloning

open Cloning

/-- Cloning a directory stores only to the payload that each pointer was returned for if and only if
every slot of the source is empty or shared with the kernel directory. So it is for all the payloads
taken together, if the blocks do not overlap. -/
theorem clone_directory_writes_own_iff {π : Type*} (C : Cloner π) {s s₁ : Kheap π} {src dir : ℕ}
    {c : Cloning π} (hok : cloneDirectory C src ⟨s, []⟩ = .ok (dir, c))
    (halloc : s.alloc C.pager pageDirectorySize true = .ok (dir, s₁))
    (hsrc : Untouched s s₁ dir src) (hkernel : Untouched s s₁ dir C.kernelDirectory) :
    ((∀ w ∈ c.accesses, w.Inside) ↔ Shared C.kernelDirectory s.mem src 1024) ∧
      (BlocksApart c.accesses →
        (OwnBytes c.accesses ↔ Shared C.kernelDirectory s.mem src 1024)) := by
  rw [cloneDirectory, kmallocAp, halloc] at hok
  obtain ⟨c₁, hc₁⟩ : ∃ c₁ : Cloning π, c₁ = ⟨s₁, []⟩ := ⟨_, rfl⟩
  obtain ⟨phys, hphys⟩ : ∃ phys, C.physAddr dir s₁.pages = phys := ⟨_, rfl⟩
  simp only [Except.map, Except.bind, ← hc₁, hphys] at hok
  have htidy₀ : Tidy c₁ (c₁.blankDirectory dir phys) := blankDirectory_spec.1
  have hbyte : ∀ x, x < dir ∨ dir + pageDirectorySize ≤ x →
      (c₁.blankDirectory dir phys).heap.mem x = c₁.heap.mem x := blankDirectory_spec.2
  cases hloop : cloneSlots C src dir 1024 (c₁.blankDirectory dir phys) with
  | error e =>
      rw [hloop] at hok
      exact absurd hok (by simp)
  | ok c₂ =>
      rw [hloop] at hok
      obtain rfl : c₂ = c := (Prod.mk.inj (Except.ok.inj hok)).2
      obtain ⟨hshared, -, hcopied⟩ := cloneSlots_spec le_rfl hsrc.1 hkernel.1 hloop
      have hagree : ∀ a, Untouched s s₁ dir a →
          AgreeOn s.mem (c₁.blankDirectory dir phys).heap.mem a (a + 0x1000) := by
        rintro a ⟨hapart, hkeep⟩ x h1 h2
        rw [Apart] at hapart
        rw [hbyte x (by omega), hc₁]
        exact hkeep x h1 h2
      rw [Shared.congr (hagree _ hkernel) (hagree _ hsrc) le_rfl] at hshared hcopied
      have hinside : Shared C.kernelDirectory s.mem src 1024 → ∀ w ∈ c₂.accesses, w.Inside := by
        intro h w hw
        rcases (hshared h).1.inside w hw with hw | hw
        · rcases htidy₀.inside w hw with hw | hw
          · rw [hc₁] at hw
            exact absurd hw (by simp)
          · exact hw
        · exact hw
      refine ⟨⟨fun h => ?_, hinside⟩, fun happart => ⟨fun h => ?_, fun h => ownBytes_of_inside (hinside h)⟩⟩
      · by_contra hnot
        obtain ⟨T, hT⟩ := hcopied hnot
        have hbeyond := (h _ hT).2
        simp only [Store.addr, Store.len, pageTableSize, pageDirectorySize] at hbeyond
        omega
      · by_contra hnot
        obtain ⟨T, hT⟩ := hcopied hnot
        exact not_ownBytes happart hT h

/-! ### The heap at the start -/

/-- Pages that are all there, in a machine without free frames. -/
def Cloner.idle : Cloner Unit where
  pager := .idle
  physAddr addr _ := addr
  allocFrame _ _ _ _ := .error .noFrame
  copyPagePhysical _ _ pages := pages
  kernelDirectory := 0x1000

section Start

variable {s : Kheap Unit} {mem : Bytes}

/-- The directory in the heap at the start. -/
lemma alloc_directory_start (h : Laid s [⟨0xC0080000, 0x80000, true⟩]) (hslots : s.slots = [0xC0080000])
    (hroom : s.heap.size < s.heap.maxSize) :
    ∃ s₁ : Kheap Unit, s.alloc .idle pageDirectorySize true = .ok (0xC0081000, s₁) ∧
      Within s s₁ 0xC0080000 0xC0100000 ∧
      Laid s₁ [⟨0xC0080000, 0xFF4, true⟩, ⟨0xC0080FF4, 0x2018, false⟩, ⟨0xC008300C, 0x7CFF4, true⟩] := by
  have hr := alignedRoom_start pageDirectorySize h hslots (by decide)
  obtain ⟨p, s₁, hplace⟩ : ∃ p s₁, s.place pageDirectorySize (pageDirectorySize + 20) true 0 = (p, s₁) :=
    ⟨_, _, rfl⟩
  obtain ⟨hp, hwithin, hlaid⟩ := place_aligned (l := []) (r := []) h hr.word (by decide)
    (Or.inr (by decide)) (fun _ => hroom) hplace
  refine ⟨s₁, ?_, hwithin, hlaid⟩
  rw [hr.alloc_eq .idle h, hplace, hp]
  rfl

/-- A table in the heap with that directory. -/
lemma alloc_table_start (h : Laid s
      [⟨0xC0080000, 0xFF4, true⟩, ⟨0xC0080FF4, 0x2018, false⟩, ⟨0xC008300C, 0x7CFF4, true⟩]) :
    ∃ s₁ : Kheap Unit, s.alloc .idle pageTableSize true = .ok (0xC0084000, s₁) ∧
      Within s s₁ 0xC008300C 0xC0100000 := by
  have hfront : s.sizeAt 0xC0080000 = 0xFF4 := (h.valid _ List.mem_cons_self).size
  have hrear : s.sizeAt 0xC008300C = 0x7CFF4 := (h.valid ⟨0xC008300C, 0x7CFF4, true⟩ (by simp)).size
  have hperm : s.slots.Perm [0xC0080000, 0xC008300C] := h.index.perm
  have hcount : s.heap.size < s.heap.maxSize := by
    have hlength : s.slots.length = s.heap.size := Heap.length_slots
    rw [← hlength, hperm.length_eq, h.placed.capacity]
    decide
  have hshort : ¬ fitsHole s.mem (add32 pageTableSize 20) true 0xC0080000 = true := by
    change read32 s.mem (0xC0080000 + 8) = 0xFF4 at hfront
    rw [fitsHole_aligned, hfront]
    decide
  have hfits : fitsHole s.mem (add32 pageTableSize 20) true 0xC008300C = true := by
    change read32 s.mem (0xC008300C + 8) = 0x7CFF4 at hrear
    rw [fitsHole_aligned, hrear]
    decide
  obtain ⟨i, hfound⟩ : ∃ i, s.findSmallestHole (add32 pageTableSize 20) true = some i := by
    refine Option.isSome_iff_exists.mp ?_
    rw [Kheap.findSmallestHole, List.findIdx?_isSome, List.any_eq_true]
    exact ⟨_, hperm.mem_iff.mpr (by simp), hfits⟩
  obtain ⟨hi, hholds⟩ := findSmallestHole_some hfound
  have hword : s.heap.word s.mem i = 0xC008300C := by
    have hmem : s.heap.word s.mem i ∈ s.slots := Heap.word_mem_slots hi
    rcases List.mem_cons.mp (hperm.mem_iff.mp hmem) with heq | heq
    · rw [heq] at hholds
      exact absurd hholds hshort
    · exact List.mem_singleton.mp heq
  have hr : AlignedRoom s pageTableSize i 0xC008300C 0x7CFF4 0xC0084000 := by
    refine ⟨hfound, hword, hrear, ⟨⟨by decide, by decide⟩, ?_⟩, by decide⟩
    rintro q ⟨hpage, hle⟩
    omega
  obtain ⟨p, s₁, hplace⟩ : ∃ p s₁, s.place pageTableSize (pageTableSize + 20) true i = (p, s₁) :=
    ⟨_, _, rfl⟩
  obtain ⟨hp, hwithin, -⟩ := place_aligned (l := [⟨0xC0080000, 0xFF4, true⟩, ⟨0xC0080FF4, 0x2018, false⟩])
    (r := []) h hword (by decide) (Or.inr (by decide)) (fun _ => hcount) hplace
  refine ⟨s₁, ?_, hwithin⟩
  rw [hr.alloc_eq .idle h, hplace, hp]
  rfl

/-- The words of a memory with one word set. -/
lemma read32_single {m : Bytes} {a b v top : ℕ} (h : ∀ x < top, m x = write32 (fun _ => 0) b v x)
    (ha : a + 4 ≤ top) (hapart : a + 4 ≤ b ∨ b + 4 ≤ a) : read32 m a = 0 := by
  calc read32 m a = read32 (fun _ => 0) a := read32_congr fun x h1 h2 => by
        rw [h x (by omega)]
        exact write32_byte (by omega)
    _ = 0 := by simp [read32]

end Start

/-- The kernel directory, with a table at `0x5000`, is cloned into the heap at the start. -/
theorem clone_directory_writes_own_kernel :
    ∃ (s s₁ : Kheap Unit) (c : Cloning Unit),
      Kheap.createHeap 0xC0000000 0xC0100000 0xCFFFF000 false false
          (write32 (fun _ => 0) 0x1000 0x5000) () = .ok s ∧
        s.alloc Cloner.idle.pager pageDirectorySize true = .ok (0xC0081000, s₁) ∧
        cloneDirectory .idle 0x1000 ⟨s, []⟩ = .ok (0xC0081000, c) ∧
        (((∀ w ∈ c.accesses, w.Inside) ↔ Shared 0x1000 s.mem 0x1000 1024) ∧
          (BlocksApart c.accesses → (OwnBytes c.accesses ↔ Shared 0x1000 s.mem 0x1000 1024))) := by
  obtain ⟨s, hs, hlaid, -, hheap, hslots⟩ := createHeap_laid 0xC0000000 0xC0100000 0xCFFFF000
    false false (write32 (fun _ => 0) 0x1000 0x5000) () (by decide) (by decide) (by decide) (by decide)
  obtain ⟨s₁, hs₁, hwithin, -⟩ := alloc_directory_start hlaid hslots (by rw [hheap]; decide)
  have hplaced := hlaid.placed.capacity
  have hsrc : Untouched s s₁ 0xC0081000 0x1000 := by
    refine ⟨Or.inl (by decide), fun x _ hx => hwithin.bytes x (Or.inl ?_) (Or.inl (by omega))⟩
    rw [hheap]
    exact hx.trans (by decide)
  have hreturns : ∃ c, cloneDirectory .idle 0x1000 ⟨s, []⟩ = .ok (0xC0081000, c) := by
    obtain ⟨c₁, hc₁⟩ : ∃ c₁ : Cloning Unit, c₁ =
      blankDirectory 0xC0081000 0xC0081000 ⟨s₁, []⟩ := ⟨_, rfl⟩
    have hshared : Shared 0x1000 c₁.heap.mem 0x1000 1024 := fun i _ => Or.inr rfl
    obtain ⟨c, hc⟩ := cloneSlots_returns (C := .idle) le_rfl hsrc.1 hsrc.1 hshared
    rw [hc₁] at hc
    exact ⟨c, cloneDirectory_eq hs₁ hc⟩
  obtain ⟨c, hc⟩ := hreturns
  exact ⟨s, s₁, c, hs, hs₁, hc, clone_directory_writes_own_iff .idle hc hs₁ hsrc hsrc⟩

/-- A directory with one empty table of its own is cloned: the clear of the copy runs over the footer
behind it and the hole after that. -/
theorem clone_directory_clears_beyond_table :
    ∃ (s : Kheap Unit) (dir : ℕ) (c : Cloning Unit),
      Kheap.createHeap 0xC0000000 0xC0100000 0xCFFFF000 false false
          (write32 (fun _ => 0) 0x10000 0x20000) () = .ok s ∧
        cloneDirectory .idle 0x10000 ⟨s, []⟩ = .ok (dir, c) ∧ ¬ OwnBytes c.accesses := by
  obtain ⟨s, hs, hlaid, -, hheap, hslots⟩ := createHeap_laid 0xC0000000 0xC0100000 0xCFFFF000
    false false (write32 (fun _ => 0) 0x10000 0x20000) () (by decide) (by decide) (by decide) (by decide)
  obtain ⟨s₁, hs₁, hwithin₁, hlaid₁⟩ := alloc_directory_start hlaid hslots (by rw [hheap]; decide)
  have harray : s.heap.array = 0xC0000000 := by rw [hheap]
  obtain ⟨dir, hdir⟩ : ∃ dir, dir = 0xC0081000 := ⟨_, rfl⟩
  rw [← hdir] at hs₁
  obtain ⟨c₁, hc₁⟩ : ∃ c₁ : Cloning Unit, c₁ = blankDirectory dir dir ⟨s₁, []⟩ := ⟨_, rfl⟩
  have hkeep₁ : ∀ x, x < dir ∨ dir + pageDirectorySize ≤ x → c₁.heap.mem x = s₁.mem x := by
    rw [hc₁]
    exact blankDirectory_spec.2
  -- the heap with the cleared directory is intact
  have hlaid₂ : Laid c₁.heap
      [⟨0xC0080000, 0xFF4, true⟩, ⟨0xC0080FF4, 0x2018, false⟩, ⟨0xC008300C, 0x7CFF4, true⟩] := by
    have hheap₁ : c₁.heap = { s₁ with mem := c₁.heap.mem } := by
      rw [hc₁]
      rfl
    rw [hheap₁]
    refine Laid.payload (l := [⟨0xC0080000, 0xFF4, true⟩]) hlaid₁ fun x hx => hkeep₁ x ?_
    rw [hdir, pageDirectorySize]
    omega
  obtain ⟨s₂, hs₂, hwithin₂⟩ := alloc_table_start hlaid₂
  have hlow₁ : ∀ x < 0xC0000000, c₁.heap.mem x = write32 (fun _ => 0) 0x10000 0x20000 x := by
    intro x hx
    rw [hkeep₁ x (Or.inl (by omega)),
      hwithin₁.bytes x (Or.inl (by rw [harray]; exact hx)) (Or.inl (by omega)),
      createHeap_below hs hx]
  have harray₁ : c₁.heap.heap.array = 0xC0000000 := by
    rw [hc₁]
    exact hwithin₁.array.trans harray
  have hlow₂ : ∀ x < 0xC0000000, s₂.mem x = write32 (fun _ => 0) 0x10000 0x20000 x := by
    intro x hx
    rw [hwithin₂.bytes x (Or.inl (by rw [harray₁]; exact hx)) (Or.inl (by omega)), hlow₁ x hx]
  have hsource : c₁.word (tablesAddr 0x10000 0) = 0x20000 := by
    calc c₁.word (tablesAddr 0x10000 0)
        = read32 (write32 (fun _ => 0) 0x10000 0x20000) 0x10000 :=
          read32_congr fun x _ hx => hlow₁ x (hx.trans (by decide))
      _ = 0x20000 := read32_write32 (by decide)
  have hkernel : c₁.word (tablesAddr 0x1000 0) = 0 :=
    read32_single hlow₁ (by decide) (Or.inl (by decide))
  obtain ⟨table, htable⟩ : ∃ table, table = 0xC0084000 := ⟨_, rfl⟩
  rw [← htable] at hs₂
  obtain ⟨c₂, hc₂⟩ : ∃ c₂ : Cloning Unit, c₂ = Cloning.store
    ⟨table, pageTableSize, .zero table pageDirectorySize⟩ { c₁ with heap := s₂ } := ⟨_, rfl⟩
  have hkeep₂ : ∀ x < 0xC0000000, c₂.heap.mem x = write32 (fun _ => 0) 0x10000 0x20000 x := by
    intro x hx
    rw [hc₂, ← hlow₂ x hx]
    have hbelow : x < (Store.zero table pageDirectorySize).addr := by
      simp only [Store.addr]
      omega
    exact Store.apply_byte (Or.inl hbelow)
  have hcopy : cloneTable .idle 0x20000 c₁ = .ok (table, table, c₂) := by
    refine cloneTable_eq hs₂ ?_
    rw [← hc₂]
    exact cloneEntries_empty fun i hi => read32_single hkeep₂ (by omega) (Or.inr (by omega))
  obtain ⟨c, hc⟩ : ∃ c, c = c₂.setSlot dir 0 table (table ||| 0x7) := ⟨_, rfl⟩
  have hkeep : ∀ x < 0xC0000000, c.heap.mem x = write32 (fun _ => 0) 0x10000 0x20000 x := by
    intro x hx
    rw [hc, setSlot_byte (by decide) (Or.inl (by omega))]
    exact hkeep₂ x hx
  have hslot : cloneSlot .idle 0x10000 dir 0 c₁ = .ok c := by
    rw [cloneSlot, hsource, if_neg (by decide)]
    refine (if_neg ?_).trans ?_
    · exact hkernel.trans_ne (by decide)
    · rw [hcopy, hc]
      rfl
  have hloop : cloneSlots .idle 0x10000 dir 1024 c₁ = .ok c :=
    cloneSlots_first (n := 1023) hslot fun i h1 h2 =>
      read32_single hkeep (by simp only [tablesAddr]; omega) (Or.inr (by simp only [tablesAddr]; omega))
  refine ⟨s, dir, c, hs, cloneDirectory_eq hs₁ (by rw [← hloop, hc₁]; rfl), not_ownBytes (T := table) ?_ ?_⟩
  · have hblocks : ∀ w ∈ c.accesses, w.block = dir ∧ w.size = pageDirectorySize ∨
        w.block = table ∧ w.size = pageTableSize := by
      rw [hc, hc₂, hc₁]
      simp [setSlot, Cloning.store, blankDirectory]
    intro w hw v hv
    have h1 := hblocks w hw
    have h2 := hblocks v hv
    rw [hdir, htable, pageDirectorySize, pageTableSize] at h1 h2
    omega
  · rw [hc, hc₂]
    simp [setSlot, Cloning.store]

end Matanos
