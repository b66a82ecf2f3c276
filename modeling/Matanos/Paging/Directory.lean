import Matanos.Lib.Run
import Matanos.Paging.Tables

/-!
`get_page_ptr_in_page_table` over runs, with the tables that `kmalloc_ap` returns from the heap.

* `TableBlock`, `PageCall`, `getPagePtr`: a call, with what `kmalloc_ap` returns if it is called;
* `Promised`: what `kmalloc_ap` promises of a block;
* `Represents`: the two arrays of a directory agree;
* `Made`: the invariant, with the tables that have been made; `Made.call`: a call keeps it;
* `page_directory_represents`: the calls of a run, from a cleared directory on.
-/

namespace Matanos

open Lib

/-- What `kmalloc_ap` returns: a block, its physical address, and memory after the call. -/
structure TableBlock where
  addr : ℕ
  phys : ℕ
  mem : ℕ → ℕ

/-- A call of `get_page_ptr_in_page_table`, with what `kmalloc_ap` returns if a table is made. -/
structure PageCall where
  address : ℕ
  make : Bool
  block : TableBlock

namespace PageCall

variable (dir : ℕ)

/-- `get_page_ptr_in_page_table`: the pointer, and memory after the call. -/
def getPagePtr (mem : ℕ → ℕ) (c : PageCall) : ℕ × (ℕ → ℕ) :=
  let address := c.address / 0x1000
  let tableIdx := address / 1024
  if mem (tablesAddr dir tableIdx) ≠ 0 then
    (mem (tablesAddr dir tableIdx) + 4 * (address % 1024), mem)
  else if c.make then
    let tmp := c.block.phys
    let mem := Function.update c.block.mem (tablesAddr dir tableIdx) c.block.addr
    let mem := Function.update mem (tablesPhysicalAddr dir tableIdx) (tmp ||| 0x7)
    (mem (tablesAddr dir tableIdx) + 4 * (address % 1024), mem)
  else (0, mem)

/-- The call as a step of memory. -/
def step? (mem : ℕ → ℕ) (c : PageCall) : Option (ℕ → ℕ) := some (getPagePtr dir mem c).2

/-- The slot of the directory that a call is about. -/
def tableIdx (c : PageCall) : ℕ := c.address / 0x400000

/-- The block starts a page and is none of the tables of the directory, its physical address is that of
the page, and the call of `kmalloc_ap` leaves the directory as it was. -/
structure Promised (physAddr : ℕ → ℕ) (mem : ℕ → ℕ) (b : TableBlock) : Prop where
  nonnull : b.addr ≠ 0
  aligned : b.addr % 0x1000 = 0
  apart : ∀ i < 1024, mem (tablesAddr dir i) ≠ 0 →
    b.addr + 0x1000 ≤ mem (tablesAddr dir i) ∨ mem (tablesAddr dir i) + 0x1000 ≤ b.addr
  phys : b.phys = physAddr b.addr
  physAligned : b.phys % 0x1000 = 0
  kept : ∀ i < 1024, b.mem (tablesAddr dir i) = mem (tablesAddr dir i) ∧
    b.mem (tablesPhysicalAddr dir i) = mem (tablesPhysicalAddr dir i)

/-- A call with an address of 32 bits, and a block as promised if a table is made. -/
def Valid (physAddr : ℕ → ℕ) (mem : ℕ → ℕ) (c : PageCall) : Prop :=
  c.address < 2 ^ 32 ∧
    (c.make = true → mem (tablesAddr dir c.tableIdx) = 0 → Promised dir physAddr mem c.block)

/-- The directory is cleared. -/
def Blank (mem : ℕ → ℕ) : Prop :=
  ∀ i < 1024, mem (tablesAddr dir i) = 0 ∧ mem (tablesPhysicalAddr dir i) = 0

/-- A slot has a table if and only if its physical entry is present, and names that table. -/
def Represents (physAddr : ℕ → ℕ) (mem : ℕ → ℕ) : Prop :=
  ∀ i < 1024, (mem (tablesAddr dir i) ≠ 0 ↔ mem (tablesPhysicalAddr dir i) % 2 = 1) ∧
    (mem (tablesAddr dir i) ≠ 0 →
      mem (tablesPhysicalAddr dir i) / 0x1000 * 0x1000 = physAddr (mem (tablesAddr dir i)))

variable {dir} {physAddr mem m m' : ℕ → ℕ} {c : PageCall} {as : List PageCall} {M : ℕ → Prop}

/-! ### One call -/

/-- **What a call does**: it finds a table, makes one, or returns null. -/
lemma getPagePtr_cases (hc : Valid dir physAddr m c) :
    (m (tablesAddr dir c.tableIdx) ≠ 0 ∧
      getPagePtr dir m c = (m (tablesAddr dir c.tableIdx) + 4 * (c.address / 0x1000 % 1024), m)) ∨
    (m (tablesAddr dir c.tableIdx) = 0 ∧ c.make = true ∧
      (getPagePtr dir m c).1 = c.block.addr + 4 * (c.address / 0x1000 % 1024) ∧
      (∀ i < 1024, (getPagePtr dir m c).2 (tablesAddr dir i)
        = if i = c.tableIdx then c.block.addr else m (tablesAddr dir i)) ∧
      ∀ i < 1024, (getPagePtr dir m c).2 (tablesPhysicalAddr dir i)
        = if i = c.tableIdx then c.block.phys + 7 else m (tablesPhysicalAddr dir i)) ∨
    (m (tablesAddr dir c.tableIdx) = 0 ∧ c.make = false ∧ getPagePtr dir m c = (0, m)) := by
  obtain ⟨haddr, hblock⟩ := hc
  have hidx : c.address / 0x1000 / 1024 = c.tableIdx := Nat.div_div_eq_div_mul _ _ _
  have hlt : c.tableIdx < 1024 := by
    rw [tableIdx]
    omega
  simp only [getPagePtr, hidx]
  by_cases hnull : m (tablesAddr dir c.tableIdx) = 0
  · rw [if_neg (not_not.mpr hnull)]
    cases hmake : c.make with
    | false =>
        exact Or.inr (Or.inr ⟨hnull, rfl, if_neg Bool.false_ne_true⟩)
    | true =>
        obtain ⟨-, -, -, -, hphys, hkept⟩ := hblock hmake hnull
        have hor : c.block.phys ||| 0x7 = c.block.phys + 7 :=
          or_lowBits (k := 3) (by omega) (by norm_num)
        rw [if_pos rfl, hor]
        refine Or.inr (Or.inl ⟨hnull, rfl, ?_, fun i hi => ?_, fun i hi => ?_⟩)
        · simp only [tablesAddr, tablesPhysicalAddr]
          rw [Function.update_of_ne (by omega), Function.update_self]
        · simp only [tablesAddr, tablesPhysicalAddr]
          rw [Function.update_of_ne (by omega)]
          split_ifs with heq
          · rw [heq, Function.update_self]
          · rw [Function.update_of_ne (by omega)]
            exact (hkept i hi).1
        · simp only [tablesAddr, tablesPhysicalAddr]
          split_ifs with heq
          · rw [heq, Function.update_self]
          · rw [Function.update_of_ne (by omega), Function.update_of_ne (by omega)]
            exact (hkept i hi).2
  · rw [if_pos hnull]
    exact Or.inl ⟨hnull, rfl⟩

/-- The slots in `M` have tables, which start pages and are apart, and their physical entries name
them; the other physical entries are not present. -/
structure Made (dir : ℕ) (physAddr : ℕ → ℕ) (M : ℕ → Prop) (m : ℕ → ℕ) : Prop where
  made : ∀ i < 1024, m (tablesAddr dir i) ≠ 0 ↔ M i
  null : ∀ i < 1024, m (tablesAddr dir i) = 0 → m (tablesPhysicalAddr dir i) % 2 = 0
  phys : ∀ i < 1024, m (tablesAddr dir i) ≠ 0 →
    m (tablesPhysicalAddr dir i) = physAddr (m (tablesAddr dir i)) + 7 ∧
      physAddr (m (tablesAddr dir i)) % 0x1000 = 0
  apart : ∀ i < 1024, ∀ j < 1024, i ≠ j → m (tablesAddr dir i) ≠ 0 → m (tablesAddr dir j) ≠ 0 →
    m (tablesAddr dir i) + 0x1000 ≤ m (tablesAddr dir j) ∨
      m (tablesAddr dir j) + 0x1000 ≤ m (tablesAddr dir i)

lemma Blank.made (h : Blank dir m) : Made dir physAddr (fun _ => False) m where
  made i hi := iff_of_false (not_not.mpr (h i hi).1) id
  null i hi _ := by rw [(h i hi).2]
  phys i hi hne := absurd (h i hi).1 hne
  apart i hi j hj hij hne := absurd (h i hi).1 hne

lemma Made.represents (h : Made dir physAddr M m) : Represents dir physAddr m := by
  intro i hi
  by_cases hnull : m (tablesAddr dir i) = 0
  · have heven := h.null i hi hnull
    exact ⟨iff_of_false (not_not.mpr hnull) (by omega), fun hne => absurd hnull hne⟩
  · obtain ⟨hphys, haligned⟩ := h.phys i hi hnull
    rw [hphys]
    exact ⟨iff_of_true hnull (by omega), fun _ => by omega⟩

/-- **A call keeps the directory**, with one more table if it makes one. -/
lemma Made.call (h : Made dir physAddr M m) (hc : Valid dir physAddr m c) :
    Made dir physAddr (fun i => M i ∨ c.make = true ∧ i = c.tableIdx) (getPagePtr dir m c).2 := by
  have hlt : c.tableIdx < 1024 := by
    have := hc.1
    rw [tableIdx]
    omega
  rcases getPagePtr_cases hc with ⟨hne, heq⟩ | ⟨hnull, hmake, -, htables, hphys⟩ | ⟨-, hmake, heq⟩
  · rw [heq]
    refine ⟨fun i hi => ?_, h.null, h.phys, h.apart⟩
    rw [h.made i hi, iff_self_or]
    rintro ⟨-, rfl⟩
    exact (h.made _ hi).mp hne
  · obtain ⟨hnonnull, -, hapart, hblock, haligned, -⟩ := hc.2 hmake hnull
    refine ⟨fun i hi => ?_, fun i hi => ?_, fun i hi => ?_, fun i hi j hj hij => ?_⟩
    · rw [htables i hi]
      split_ifs with heq
      · exact iff_of_true hnonnull (Or.inr ⟨hmake, heq⟩)
      · simp [h.made i hi, heq]
    · rw [htables i hi, hphys i hi]
      split_ifs with heq
      · exact fun h0 => absurd h0 hnonnull
      · exact h.null i hi
    · rw [htables i hi, hphys i hi]
      split_ifs with heq
      · rw [← hblock]
        exact fun _ => ⟨rfl, haligned⟩
      · exact h.phys i hi
    · rw [htables i hi, htables j hj]
      split_ifs with hi' hj' hj'
      · exact absurd (hi'.trans hj'.symm) hij
      · exact fun _ hne => hapart j hj hne
      · exact fun hne _ => (hapart i hi hne).symm
      · exact h.apart i hi j hj hij
  · rw [heq]
    refine ⟨fun i hi => ?_, h.null, h.phys, h.apart⟩
    simp [h.made i hi, hmake]

/-- A call leaves the tables that there are. -/
lemma getPagePtr_kept (hc : Valid dir physAddr m c) {i : ℕ} (hi : i < 1024)
    (hne : m (tablesAddr dir i) ≠ 0) :
    (getPagePtr dir m c).2 (tablesAddr dir i) = m (tablesAddr dir i) := by
  rcases getPagePtr_cases hc with ⟨-, heq⟩ | ⟨hnull, -, -, htables, -⟩ | ⟨-, -, heq⟩
  · rw [heq]
  · rw [htables i hi, if_neg]
    rintro rfl
    exact hne hnull
  · rw [heq]

/-- A pointer that is not null names an entry of the table of the slot. -/
lemma getPagePtr_entry (hc : Valid dir physAddr m c) (hptr : (getPagePtr dir m c).1 ≠ 0) :
    (getPagePtr dir m c).2 (tablesAddr dir c.tableIdx) ≠ 0 ∧ (getPagePtr dir m c).1 =
      (getPagePtr dir m c).2 (tablesAddr dir c.tableIdx) + 4 * (c.address / 0x1000 % 1024) := by
  have hlt : c.tableIdx < 1024 := by
    have := hc.1
    rw [tableIdx]
    omega
  rcases getPagePtr_cases hc with ⟨hne, heq⟩ | ⟨hnull, hmake, hres, htables, -⟩ | ⟨-, -, heq⟩
  · rw [heq]
    exact ⟨hne, rfl⟩
  · rw [hres, htables _ hlt, if_pos rfl]
    exact ⟨(hc.2 hmake hnull).nonnull, rfl⟩
  · rw [heq] at hptr
    exact absurd rfl hptr

/-! ### Runs -/

/-- **A run keeps the directory**, and the tables that are made are those of its calls. -/
lemma Made.run (h : Made dir physAddr M m) (has : Along (step? dir) (Valid dir physAddr) m as)
    (hrun : run (step? dir) m as = some m') :
    Made dir physAddr (fun i => M i ∨ ∃ b ∈ as, b.make = true ∧ i = b.tableIdx) m' ∧
      ∀ i < 1024, m (tablesAddr dir i) ≠ 0 → m' (tablesAddr dir i) = m (tablesAddr dir i) := by
  induction as generalizing m M with
  | nil =>
      obtain rfl := Option.some.inj hrun
      simpa using h
  | cons c as ih =>
      obtain ⟨hc, hrest⟩ := has
      obtain ⟨hmade, hkept⟩ := ih (h.call hc) (hrest _ rfl) hrun
      refine ⟨?_, fun i hi hne => ?_⟩
      · convert hmade using 2 with i
        simp only [List.mem_cons, exists_eq_or_imp, or_assoc]
      · have hfirst := getPagePtr_kept hc hi hne
        rw [hkept i hi (by rwa [hfirst]), hfirst]

/-- Two entries are the same if and only if the page numbers are. -/
lemma Made.entry_eq_iff (h : Made dir physAddr M m) {a b : ℕ} (ha : a < 2 ^ 32) (hb : b < 2 ^ 32)
    (hta : m (tablesAddr dir (a / 0x400000)) ≠ 0) (htb : m (tablesAddr dir (b / 0x400000)) ≠ 0) :
    m (tablesAddr dir (a / 0x400000)) + 4 * (a / 0x1000 % 1024)
        = m (tablesAddr dir (b / 0x400000)) + 4 * (b / 0x1000 % 1024) ↔ a / 0x1000 = b / 0x1000 := by
  by_cases hidx : a / 0x400000 = b / 0x400000
  · rw [hidx]
    omega
  · have hapart := h.apart _ (by omega) _ (by omega) hidx hta htb
    omega

/-- From a cleared directory on, over every run of calls: the two arrays agree at all times. A call that
may make a table never returns null, and one that may not returns null if and only if no call before it
has made the table. No call changes a table that is there, and two calls return the same entry if and
only if their addresses have the same page number. -/
theorem page_directory_represents {dir : ℕ} {physAddr mem : ℕ → ℕ} (hblank : Blank dir mem)
    {as : List PageCall} (has : Along (step? dir) (Valid dir physAddr) mem as) :
    ∀ bs cs m, as = bs ++ cs → run (step? dir) mem bs = some m →
      Represents dir physAddr m ∧ ∀ c ds, cs = c :: ds →
        (c.make = true → (getPagePtr dir m c).1 ≠ 0) ∧
        (c.make = false → ((getPagePtr dir m c).1 = 0 ↔
          ∀ b ∈ bs, b.make = true → b.tableIdx ≠ c.tableIdx)) ∧
        (∀ i < 1024, m (tablesAddr dir i) ≠ 0 →
          (getPagePtr dir m c).2 (tablesAddr dir i) = m (tablesAddr dir i)) ∧
        ∀ es e fs m', ds = es ++ e :: fs → run (step? dir) m (c :: es) = some m' →
          (getPagePtr dir m c).1 ≠ 0 → (getPagePtr dir m' e).1 ≠ 0 →
          ((getPagePtr dir m c).1 = (getPagePtr dir m' e).1 ↔
            c.address / 0x1000 = e.address / 0x1000) := by
  rintro bs cs m rfl hbs
  obtain ⟨hfirst, hsecond⟩ := along_append.mp has
  obtain ⟨hmade, -⟩ := hblank.made.run hfirst hbs
  refine ⟨hmade.represents, ?_⟩
  rintro c ds rfl
  obtain ⟨hc, hrest⟩ := hsecond m hbs
  have hlt : c.tableIdx < 1024 := by
    have := hc.1
    rw [tableIdx]
    omega
  refine ⟨fun hmake => ?_, fun hmake => ?_, fun i => getPagePtr_kept hc, ?_⟩
  · rcases getPagePtr_cases hc with ⟨hne, heq⟩ | ⟨hnull, -, hres, -, -⟩ | ⟨-, hmake', -⟩
    · rw [heq]
      simp only
      omega
    · have hnonnull := (hc.2 hmake hnull).nonnull
      rw [hres]
      omega
    · rw [hmake] at hmake'
      exact absurd hmake' (by decide)
  · have hiff := hmade.made _ hlt
    simp only [false_or] at hiff
    have hnever : (∀ b ∈ bs, b.make = true → b.tableIdx ≠ c.tableIdx) ↔
        m (tablesAddr dir c.tableIdx) = 0 := by
      rw [← not_iff_not, ← ne_eq, hiff]
      push Not
      simp only [eq_comm]
    rw [hnever]
    rcases getPagePtr_cases hc with ⟨hne, heq⟩ | ⟨-, hmake', -⟩ | ⟨hnull, -, heq⟩
    · rw [heq]
      refine iff_of_false ?_ hne
      simp only
      omega
    · rw [hmake] at hmake'
      exact absurd hmake' (by decide)
    · rw [heq]
      exact iff_of_true rfl hnull
  · rintro es e fs m' rfl hes hptr hptr'
    obtain ⟨hthird, hfourth⟩ := along_append.mp (hrest _ rfl)
    have hrun : run (step? dir) (getPagePtr dir m c).2 es = some m' := hes
    obtain ⟨hmade₁, hkept⟩ := (hmade.call hc).run hthird hrun
    obtain ⟨he, -⟩ := hfourth m' hrun
    obtain ⟨hne, hentry⟩ := getPagePtr_entry hc hptr
    obtain ⟨hne', hentry'⟩ := getPagePtr_entry he hptr'
    -- the table of the first call is still there after the second
    have hsame : (getPagePtr dir m' e).2 (tablesAddr dir c.tableIdx)
        = (getPagePtr dir m c).2 (tablesAddr dir c.tableIdx) := by
      have hstill := hkept _ hlt hne
      rw [getPagePtr_kept he hlt (by rwa [hstill]), hstill]
    rw [hentry, hentry', ← hsame]
    exact (hmade₁.call he).entry_eq_iff hc.1 he.1 (by rw [← tableIdx, hsame]; exact hne) hne'

/-- A call for the page at the top of the stack, in a directory at `0x1000`. -/
def stackCall (make : Bool) : PageCall := ⟨0xE0000000, make, ⟨0xC0081000, 0x189000, fun _ => 0⟩⟩

/-- The table of the stack is made, and then found. -/
theorem page_directory_represents_stack :
    ∃ m, run (step? 0x1000) (fun _ => 0) [stackCall true] = some m ∧
      Represents 0x1000 (fun _ => 0x189000) m ∧
      ((getPagePtr 0x1000 m (stackCall false)).1 = 0 ↔
        ∀ b ∈ [stackCall true], b.make = true → b.tableIdx ≠ (stackCall false).tableIdx) := by
  have hvalid : Along (step? 0x1000) (Valid 0x1000 fun _ => 0x189000) (fun _ => 0)
      [stackCall true, stackCall false] := by
    refine ⟨⟨by decide, fun _ _ => ?_⟩, fun m _ => ⟨⟨by decide, fun h => absurd h (by decide)⟩,
      fun _ _ => trivial⟩⟩
    exact ⟨by decide, by decide, fun i _ hne => absurd rfl hne, rfl, by decide, fun i _ => ⟨rfl, rfl⟩⟩
  obtain ⟨hrep, hcalls⟩ := page_directory_represents (fun _ _ => ⟨rfl, rfl⟩) hvalid [stackCall true]
    [stackCall false] _ rfl rfl
  exact ⟨_, rfl, hrep, (hcalls _ _ rfl).2.1 rfl⟩

end PageCall

end Matanos
