import Mathlib.Logic.Relation
import Matanos.Heap.Growth

/-!
Requests of any size: whether the block that `alloc` returns lies in the heap.

* `Retried`: one growth of the heap and call of `alloc` by itself; `allocCalls_retries`: `alloc` is such
  steps and then a hole that is found; `Retried.grown`: where the new bytes go;
* `InHeap`: the block is in the heap, over the integers;
* `Entered`: the entries of the index are holes in the heap, apart from each other; `Entered.retried`:
  growing keeps it, as long as the new end does not wrap;
* `GrowsStraight`, `PageFits`: no end of the heap wraps, and the payload fits behind a page boundary;
* `alloc_in_heap`: when the block lies in the heap, and what its place says about the call.
-/

namespace Matanos

open Lib

variable {π : Type*} {P : Pager π} {s s' t t' : Kheap π} {pageAlign : Bool} {i p a ns size : ℕ}

/-- No hole is found, and the heap grows before `alloc` calls itself. -/
def Retried (P : Pager π) (ns : ℕ) (pageAlign : Bool) (s t : Kheap π) : Prop :=
  s.findSmallestHole ns pageAlign = none ∧ s.grow P ns = .ok t

/-- The heaps that the calls of `alloc` see. -/
abbrev Seen (P : Pager π) (ns : ℕ) (pageAlign : Bool) : Kheap π → Kheap π → Prop :=
  Relation.ReflTransGen (Retried P ns pageAlign)

/-- The block is in the heap, and the heap below its limit, over the integers. -/
def InHeap (s : Kheap π) (p size : ℕ) : Prop :=
  s.heap.startAddress ≤ p ∧ p + size ≤ s.heap.endAddress ∧ s.heap.endAddress ≤ s.heap.maxAddress

/-- The first page boundary above `a`. An aligned payload starts there in a hole at `a`. -/
def nextPage (a : ℕ) : ℕ := (a / 0x1000 + 1) * 0x1000

/-- The end to which `expand` moves the heap for `ns` more bytes, over the integers. -/
def Heap.nextEnd (h : Heap) (ns : ℕ) : ℕ :=
  h.startAddress + if (h.length + ns) % 2 = 1 then nextPage (h.length + ns) else h.length + ns

/-- No growth of the heap moves its end past the last address. -/
def GrowsStraight (P : Pager π) (s : Kheap π) (ns : ℕ) (pageAlign : Bool) : Prop :=
  ∀ t t', Seen P ns pageAlign s t → Retried P ns pageAlign t t' → t.heap.nextEnd ns < 2 ^ 32

/-- **`alloc` grows the heap some times**, and then finds a hole. -/
lemma allocCalls_retries {n : ℕ} (hok : s.allocCalls P size pageAlign n = .ok (p, s')) :
    ∃ t i, Seen P (add32 size 20) pageAlign s t ∧
      t.findSmallestHole (add32 size 20) pageAlign = some i ∧
      t.place size (add32 size 20) pageAlign i = (p, s') := by
  induction n generalizing s with
  | zero => exact absurd hok (by simp [Kheap.allocCalls])
  | succ n ih =>
      rw [Kheap.allocCalls] at hok
      cases hfind : s.findSmallestHole (add32 size 20) pageAlign with
      | some i =>
          simp only [hfind] at hok
          exact ⟨s, i, .refl, hfind, Except.ok.inj hok⟩
      | none =>
          simp only [hfind] at hok
          cases hgrow : s.grow P (add32 size 20) with
          | error e =>
              rw [hgrow] at hok
              exact absurd hok (by simp [Except.bind])
          | ok s₁ =>
              rw [hgrow] at hok
              obtain ⟨t, i, hseen, hfound, hplace⟩ := ih hok
              exact ⟨t, i, .head ⟨hfind, hgrow⟩ hseen, hfound, hplace⟩

/-- What `place` returns, and what it keeps of the descriptor. -/
lemma place_parts (hword : t.heap.word t.mem i = a) (hplace : t.place size ns pageAlign i = (p, s')) :
    (∃ z, s'.heap = { t.heap with size := z }) ∧
      p = add32 (if pageAlign = true ∧ a &&& 0xFFFFF000 ≠ 0 then
        sub32 (sub32 (add32 a 0x1000) (a &&& 0xFFF)) 12 else a) 12 := by
  obtain ⟨q, k, s₁, hs₁⟩ : ∃ q k s₁,
      (if pageAlign = true ∧ a &&& 0xFFFFF000 ≠ 0 then t.alignHole a (t.sizeAt a)
        else (a, t.sizeAt a, t.remove i)) = (q, k, s₁) := ⟨_, _, _, rfl⟩
  have hq : q = if pageAlign = true ∧ a &&& 0xFFFFF000 ≠ 0 then
      sub32 (sub32 (add32 a 0x1000) (a &&& 0xFFF)) 12 else a := by
    by_cases halign : pageAlign = true ∧ a &&& 0xFFFFF000 ≠ 0
    · rw [if_pos halign] at hs₁ ⊢
      exact (congrArg Prod.fst hs₁).symm
    · rw [if_neg halign] at hs₁ ⊢
      exact (congrArg Prod.fst hs₁).symm
  have hheap₁ : ∃ z, s₁.heap = { t.heap with size := z } := by
    have hthird := congrArg (fun x => x.2.2.heap) hs₁
    simp only at hthird
    rw [← hthird]
    by_cases halign : pageAlign = true ∧ a &&& 0xFFFFF000 ≠ 0
    · rw [if_pos halign]
      exact ⟨t.heap.size, rfl⟩
    · rw [if_neg halign]
      exact ⟨t.heap.size - 1, rfl⟩
  rw [Kheap.place, hword] at hplace
  simp only [hs₁] at hplace
  obtain ⟨hp, rfl⟩ := Prod.mk.inj hplace
  refine ⟨?_, by rw [← hp, hq]⟩
  obtain ⟨z₁, hz₁⟩ := hheap₁
  have hrear : ∀ (u : Kheap π) (size' ns' : ℕ), u.heap = s₁.heap →
      ∃ z, (u.writeRear q size' k ns').heap = { t.heap with size := z } := by
    intro u size' ns' hu
    obtain ⟨z, hz⟩ : ∃ z, (u.writeRear q size' k ns').heap = { u.heap with size := z } :=
      writeRear_heap
    exact ⟨z, by rw [hz, hu, hz₁]⟩
  exact hrear _ _ _ rfl

/-- What a growth of the heap does. -/
lemma Retried.eq (h : Retried P ns pageAlign s t) :
    ∃ s₁ : Kheap π, s₁.mem = s.mem ∧
      s₁.heap = { s.heap with
        endAddress := add32 s.heap.startAddress (Heap.roundExpand (add32 s.heap.length ns)) } ∧
      s.heap.length < add32 s.heap.length ns ∧ s₁.heap.endAddress ≤ s.heap.maxAddress ∧
      t = match endmost s₁.slots 0 none 0 with
        | none => s₁.appendHole s.heap.endAddress (sub32 s₁.heap.length s.heap.length)
        | some idx => s₁.extendHole idx (sub32 s₁.heap.length s.heap.length) := by
  obtain ⟨-, hgrow⟩ := h
  rw [Kheap.grow] at hgrow
  cases hexpand : s.heap.expand P (add32 s.heap.length ns) s.pages with
  | error e =>
      rw [hexpand] at hgrow
      exact absurd hgrow (by simp [Except.map])
  | ok res =>
      obtain ⟨heap, pages⟩ := res
      obtain ⟨hlt, hmax, hheap⟩ := expand_eq hexpand
      rw [hexpand] at hgrow
      refine ⟨⟨s.mem, heap, pages⟩, rfl, hheap, hlt, ?_, (Except.ok.inj hgrow).symm⟩
      rw [hheap]
      exact hmax

/-- A growth of the heap moves its end. -/
lemma Retried.heap_eq (h : Retried P ns pageAlign s t) :
    ∃ z, t.heap = { s.heap with
      size := z
      endAddress := add32 s.heap.startAddress (Heap.roundExpand (add32 s.heap.length ns)) } := by
  obtain ⟨s₁, -, hheap, -, -, rfl⟩ := h.eq
  cases endmost s₁.slots 0 none 0 with
  | none =>
      refine ⟨s₁.heap.size + 1, ?_⟩
      change { s₁.heap with size := s₁.heap.size + 1 } = _
      rw [hheap]
  | some idx => exact ⟨s₁.heap.size, hheap.trans (by rw [hheap])⟩

/-- The calls see heaps with the same start and limit, which end below the last address. -/
lemma Seen.bounds (h : Seen P ns pageAlign s t) (htop : s.heap.endAddress < 2 ^ 32) :
    t.heap.startAddress = s.heap.startAddress ∧ t.heap.maxAddress = s.heap.maxAddress ∧
      t.heap.endAddress < 2 ^ 32 := by
  induction h with
  | refl => exact ⟨rfl, rfl, htop⟩
  | tail _ hstep ih =>
      obtain ⟨z, hheap⟩ := hstep.heap_eq
      rw [hheap]
      exact ⟨ih.1, ih.2.1, Nat.mod_lt _ (by decide)⟩

/-! ### The entries of the index -/

/-- The entries of the index are holes in the heap, apart from each other. -/
structure Entered (s : Kheap π) : Prop where
  placed : s.heap.Placed
  ends : s.heap.startAddress ≤ s.heap.endAddress
  limit : s.heap.endAddress ≤ s.heap.maxAddress
  fits : s.heap.size ≤ s.heap.maxSize
  inside : ∀ a ∈ s.slots, s.heap.startAddress ≤ a ∧ 20 ≤ s.sizeAt a ∧
    a + s.sizeAt a ≤ s.heap.endAddress
  apart : ∀ a ∈ s.slots, ∀ b ∈ s.slots, a = b ∨ a + 20 ≤ b ∨ b + 20 ≤ a

/-- An intact heap is entered. -/
lemma Laid.entered {cs : List Chunk} (h : Laid s cs) (hmax : s.heap.endAddress ≤ s.heap.maxAddress) :
    Entered s := by
  have hchunk : ∀ a ∈ s.slots, ∃ c ∈ cs, c.addr = a := fun a ha => by
    obtain ⟨c, hc, -, hcaddr⟩ := mem_holes.mp (h.index.perm.mem_iff.mp ha)
    exact ⟨c, hc, hcaddr⟩
  refine ⟨h.placed, h.tiled.le, hmax, h.index.fits, fun a ha => ?_, fun a ha b hb => ?_⟩
  · obtain ⟨c, hc, rfl⟩ := hchunk a ha
    obtain ⟨hlo, hhi, hn⟩ := h.tiled.bounds hc
    have hread : s.sizeAt c.addr = c.size := (h.valid c hc).size
    omega
  · obtain ⟨c, hc, rfl⟩ := hchunk a ha
    obtain ⟨d, hd, rfl⟩ := hchunk b hb
    have hn := (h.tiled.bounds hc).2.2
    have hk := (h.tiled.bounds hd).2.2
    rcases h.tiled.apart hc hd with rfl | hapart | hapart
    · exact Or.inl rfl
    · exact Or.inr (Or.inl (by omega))
    · exact Or.inr (Or.inr (by omega))

/-- The rounding of `expand` over the integers, when it does not wrap. -/
lemma roundExpand_of_lt {y : ℕ} (h : (if y % 2 = 1 then nextPage y else y) < 2 ^ 32) :
    Heap.roundExpand y = if y % 2 = 1 then nextPage y else y := by
  have hpage : nextPage y = y / 0x1000 * 0x1000 + 0x1000 := Nat.succ_mul _ _
  have hbit : y &&& 1 = y % 2 := Nat.and_one_is_mod y
  rw [Heap.roundExpand, hbit]
  by_cases hodd : y % 2 = 1
  · rw [if_pos hodd, hpage] at h
    have hmask : y &&& 0xFFFFF000 = y / 0x1000 * 0x1000 :=
      and_highMask (n := y) (m := 20) (k := 12) (by omega)
    rw [if_pos (by omega), if_pos hodd, hmask, add32_of_lt h, hpage]
  · rw [if_neg (by omega), if_neg hodd]

/-- The end that a growth leaves, when it does not wrap. -/
lemma Heap.nextEnd_eq {h : Heap} (htop : h.endAddress < 2 ^ 32) (hends : h.startAddress ≤ h.endAddress)
    {x : ℕ} (hx : h.length < add32 h.length ns) (hns : ns < 2 ^ 32) (hnext : h.nextEnd ns < 2 ^ 32)
    (hend : x = add32 h.startAddress (Heap.roundExpand (add32 h.length ns))) :
    x = h.nextEnd ns ∧ h.endAddress + ns ≤ x := by
  have hlength : h.length = h.endAddress - h.startAddress := sub32_of_le hends htop
  have hsum : add32 h.length ns = h.length + ns := by
    rw [add32] at hx ⊢
    omega
  obtain ⟨y, hy⟩ : ∃ y, h.length + ns = y := ⟨_, rfl⟩
  have hlt : y < nextPage y := by
    rw [nextPage, Nat.succ_mul]
    exact Nat.lt_div_mul_add (by decide)
  rw [Heap.nextEnd, hy] at hnext ⊢
  rw [hsum, hy, roundExpand_of_lt (by omega), add32_of_lt hnext] at hend
  refine ⟨hend, ?_⟩
  rw [hend]
  split_ifs <;> omega

/-- **What a growth leaves**: the new bytes, as a hole or added to one. -/
lemma Retried.grown (hr : Retried P ns pageAlign s t) (htop : s.heap.endAddress < 2 ^ 32)
    (hends : s.heap.startAddress ≤ s.heap.endAddress) (hns : ns < 2 ^ 32)
    (hnext : s.heap.nextEnd ns < 2 ^ 32) :
    ∃ (s₁ : Kheap π) (more : ℕ), s₁.mem = s.mem ∧
      s₁.heap = { s.heap with endAddress := s.heap.endAddress + more } ∧ ns ≤ more ∧
      s.heap.endAddress + more = s.heap.nextEnd ns ∧
      s.heap.endAddress + more ≤ s.heap.maxAddress ∧
      t = match endmost s.slots 0 none 0 with
        | none => s₁.appendHole s.heap.endAddress more
        | some idx => s₁.extendHole idx more := by
  obtain ⟨s₁, hmem, hheap, hlt, hmax, rfl⟩ := hr.eq
  obtain ⟨e, he⟩ : ∃ e, e = s₁.heap.endAddress := ⟨_, rfl⟩
  have hval : e = add32 s.heap.startAddress (Heap.roundExpand (add32 s.heap.length ns)) := by
    rw [he, hheap]
  obtain ⟨henext, hlarger⟩ := s.heap.nextEnd_eq htop hends hlt hns hnext hval
  rw [← he] at hmax
  rw [← hval] at hheap
  obtain ⟨more, rfl⟩ : ∃ more, e = s.heap.endAddress + more := ⟨e - s.heap.endAddress, by omega⟩
  have hstart₁ : s₁.heap.startAddress = s.heap.startAddress := by rw [hheap]
  have hlength : s.heap.length = s.heap.endAddress - s.heap.startAddress := sub32_of_le hends htop
  have hlength₁ : s₁.heap.length = s.heap.endAddress + more - s.heap.startAddress := by
    rw [Heap.length, ← he, hstart₁]
    exact sub32_of_le (by omega) (by omega)
  have hmore : sub32 s₁.heap.length s.heap.length = more := by
    rw [hlength, hlength₁, sub32_of_le (by omega) (by omega)]
    omega
  have hslots : s₁.slots = s.slots := by
    change s₁.heap.slots s₁.mem = s.heap.slots s.mem
    rw [hheap, hmem]
    rfl
  rw [hmore, hslots]
  exact ⟨s₁, more, hmem, hheap, by omega, henext, hmax, rfl⟩

/-- The hole of the new bytes is the only entry of an index that was empty. -/
lemma appendHole_hole {b more : ℕ} (hzero : s.heap.size = 0) (harray : s.heap.array ≤ b)
    (hmore : 20 ≤ more) (htop : b + more < 2 ^ 32) :
    (s.appendHole b more).heap = { s.heap with size := 1 } ∧ (s.appendHole b more).slots = [b] ∧
      (s.appendHole b more).sizeAt b = more := by
  rw [appendHole_eq hmore htop]
  obtain ⟨s₁, hs₁⟩ : ∃ s₁ : Kheap π, { s with mem := chunkMem s.mem ⟨b, more, true⟩ } = s₁ := ⟨_, rfl⟩
  rw [hs₁]
  have hheap : s₁.heap = s.heap := by rw [← hs₁]
  have hempty : s₁.slots = [] := by
    rw [Kheap.slots, Heap.slots, hheap, hzero]
    rfl
  have hvalid : Chunk.Valid ⟨b, more, true⟩ s₁.mem 0 := by
    rw [← hs₁]
    exact valid_chunkMem hmore htop
  refine ⟨?_, ?_, ?_⟩
  · change { s₁.heap with size := s₁.heap.size + 1 } = _
    rw [hheap, hzero]
  · have hinsert : (s₁.insert b).slots = s₁.slots.orderedInsert (Heap.keyLe s₁.mem) b :=
      Heap.slots_insert (by omega)
    rw [hinsert, hempty]
    rfl
  · have hagree : AgreeOn s₁.mem (s₁.insert b).mem (b + 8) (b + 12) := fun x hx _ =>
      Heap.insert_byte (by rw [hheap, hzero]; omega)
    rw [Kheap.sizeAt, hagree.read32 (by omega) (by omega)]
    exact hvalid.size

/-- The hole that gets the new bytes, with the index as it was. -/
lemma extendHole_hole {idx more : ℕ} (hword : s.heap.word s.mem idx = a)
    (hindex : s.heap.array + 4 * s.heap.size ≤ a) (hmore : 20 ≤ s.sizeAt a + more)
    (htop : a + (s.sizeAt a + more) < 2 ^ 32) :
    (s.extendHole idx more).heap = s.heap ∧ (s.extendHole idx more).slots = s.slots ∧
      (s.extendHole idx more).sizeAt a = s.sizeAt a + more ∧
      ∀ x < a + 8, (s.extendHole idx more).mem x = s.mem x := by
  have hbyte : ∀ x < a + 8, (s.extendHole idx more).mem x = s.mem x := by
    intro x hx
    rw [extendHole_eq hword rfl hmore htop]
    exact (writeFooter_byte (by omega)).trans (write32_byte (by omega))
  have hslots : s.heap.slots (s.extendHole idx more).mem = s.heap.slots s.mem :=
    Heap.slots_congr fun x _ hx => hbyte x (by omega)
  refine ⟨rfl, hslots, ?_, hbyte⟩
  rw [extendHole_eq hword rfl hmore htop, Kheap.sizeAt, writeFooter_read (by omega),
    read32_write32 (by omega)]

/-- A hole of the new bytes is entered. -/
lemma Entered.append (h : Entered s) (hnil : s.slots = []) {s₁ : Kheap π} {more : ℕ}
    (hheap : s₁.heap = { s.heap with endAddress := s.heap.endAddress + more }) (hmore : 20 ≤ more)
    (htop : s.heap.endAddress + more < 2 ^ 32)
    (hlimit : s.heap.endAddress + more ≤ s.heap.maxAddress) :
    Entered (s₁.appendHole s.heap.endAddress more) := by
  have hends := h.ends
  have hindex := h.placed.index
  have hzero : s₁.heap.size = 0 := by
    have hlength : s.slots.length = s.heap.size := Heap.length_slots
    rw [hheap]
    change s.heap.size = 0
    rw [← hlength, hnil]
    rfl
  have harray : s₁.heap.array ≤ s.heap.endAddress := by
    rw [hheap]
    change s.heap.array ≤ s.heap.endAddress
    omega
  obtain ⟨hheap', hslots, hsize⟩ := appendHole_hole hzero harray hmore htop
  rw [hheap] at hheap'
  refine ⟨?_, ?_, ?_, ?_, fun a ha => ?_, fun a ha c hc => ?_⟩
  · rw [hheap']
    exact ⟨h.placed.capacity, h.placed.index, h.placed.page, htop⟩
  · rw [hheap']
    change s.heap.startAddress ≤ s.heap.endAddress + more
    omega
  · rw [hheap']
    exact hlimit
  · rw [hheap']
    change 1 ≤ s.heap.maxSize
    rw [h.placed.capacity]
    decide
  · rw [hslots] at ha
    rw [List.mem_singleton.mp ha, hsize, hheap']
    exact ⟨hends, hmore, le_rfl⟩
  · rw [hslots] at ha hc
    exact Or.inl ((List.mem_singleton.mp ha).trans (List.mem_singleton.mp hc).symm)

/-- The hole that gets the new bytes stays entered, with the others below it. -/
lemma Entered.extend (h : Entered s) {s₁ : Kheap π} {more idx : ℕ} (hidx : idx < s.heap.size)
    (hlast : ∀ b ∈ s.slots, b ≤ s.heap.word s.mem idx) (hmem : s₁.mem = s.mem)
    (hheap : s₁.heap = { s.heap with endAddress := s.heap.endAddress + more })
    (htop : s.heap.endAddress + more < 2 ^ 32)
    (hlimit : s.heap.endAddress + more ≤ s.heap.maxAddress) : Entered (s₁.extendHole idx more) := by
  obtain ⟨a, ha⟩ : ∃ a, s.heap.word s.mem idx = a := ⟨_, rfl⟩
  rw [ha] at hlast
  have hslot : a ∈ s.slots := ha ▸ Heap.word_mem_slots hidx
  obtain ⟨hlo, hn, hhi⟩ := h.inside a hslot
  have hindex := h.placed.index
  have hfits := h.fits
  have hends := h.ends
  have hword₁ : s₁.heap.word s₁.mem idx = a := by
    rw [hheap, hmem]
    exact ha
  have hsame : ∀ b, s₁.sizeAt b = s.sizeAt b := fun b => by rw [Kheap.sizeAt, hmem, Kheap.sizeAt]
  have hindex₁ : s₁.heap.array + 4 * s₁.heap.size ≤ a := by
    rw [hheap]
    change s.heap.array + 4 * s.heap.size ≤ a
    omega
  have hmore₁ : 20 ≤ s₁.sizeAt a + more := by
    rw [hsame]
    omega
  have htop₁ : a + (s₁.sizeAt a + more) < 2 ^ 32 := by
    rw [hsame]
    omega
  obtain ⟨hheap', hslots, hsize, hbyte⟩ := extendHole_hole hword₁ hindex₁ hmore₁ htop₁
  have hslots₁ : s₁.slots = s.slots := by
    rw [Kheap.slots, hheap, hmem]
    rfl
  rw [hslots₁] at hslots
  rw [hsame] at hsize
  rw [hmem] at hbyte
  rw [hheap] at hheap'
  obtain ⟨t, ht⟩ : ∃ t, s₁.extendHole idx more = t := ⟨_, rfl⟩
  rw [ht] at hheap' hslots hsize hbyte ⊢
  refine ⟨?_, ?_, ?_, ?_, fun b hb => ?_, ?_⟩
  · rw [hheap']
    exact h.placed.of_end htop
  · rw [hheap']
    change s.heap.startAddress ≤ s.heap.endAddress + more
    omega
  · rw [hheap']
    exact hlimit
  · rw [hheap']
    exact hfits
  · rw [hslots] at hb
    rw [hheap']
    change s.heap.startAddress ≤ b ∧ 20 ≤ t.sizeAt b ∧ b + t.sizeAt b ≤ s.heap.endAddress + more
    obtain ⟨hblo, hbn, hbhi⟩ := h.inside b hb
    rcases h.apart b hb a hslot with rfl | hbelow | habove
    · rw [hsize]
      omega
    · have hkeep : t.sizeAt b = s.sizeAt b := read32_congr fun x _ _ => hbyte x (by omega)
      rw [hkeep]
      omega
    · have := hlast b hb
      omega
  · rw [hslots]
    exact h.apart

/-- **Growing keeps the entries in the heap**, when the new end does not wrap. -/
lemma Entered.retried (h : Entered s) (hr : Retried P ns pageAlign s t) (hns20 : 20 ≤ ns)
    (hns : ns < 2 ^ 32) (hnext : s.heap.nextEnd ns < 2 ^ 32) : Entered t := by
  obtain ⟨s₁, more, hmem, hheap, hmore, hnew, hmax, rfl⟩ := hr.grown h.placed.top h.ends hns hnext
  rcases endmost_eq s.slots 0 none 0 with ⟨hzero, hnone⟩ | ⟨j, x, hj, -, hlast, hsome⟩
  · have hnil : s.slots = [] := by
      refine List.eq_nil_iff_forall_not_mem.mpr fun a ha => ?_
      have hlo := (h.inside a ha).1
      have hindex := h.placed.index
      rw [h.placed.capacity, heapIndexSize] at hindex
      have := hzero a ha
      omega
    rw [hnone]
    exact h.append hnil hheap (by omega) (by omega) hmax
  · have hidx : j < s.heap.size := by
      have hlen : s.slots.length = s.heap.size := Heap.length_slots
      rw [← hlen]
      exact (List.getElem?_eq_some_iff.mp hj).1
    have hword : s.heap.word s.mem j = x := by
      have hget : s.slots[j]? = some (s.heap.word s.mem j) := Heap.getElem?_slots hidx
      exact Option.some.inj (hget.symm.trans hj)
    rw [hsome, Nat.zero_add]
    exact h.extend hidx (by rw [hword]; exact hlast) hmem hheap (by omega) hmax

/-- The heaps that the calls see are entered, when no growth wraps. -/
lemma Entered.seen (h : Entered s) (hns20 : 20 ≤ ns) (hns : ns < 2 ^ 32)
    (hgrow : GrowsStraight P s ns pageAlign) (hseen : Seen P ns pageAlign s t) : Entered t := by
  induction hseen with
  | refl => exact h
  | tail hseen hstep ih => exact ih.retried hstep hns20 hns (hgrow _ _ hseen hstep)

/-! ### The block -/

/-- Where a hole is found, the heap does not grow. -/
lemma Seen.of_found (h : Seen P ns pageAlign s t) (hfind : s.findSmallestHole ns pageAlign = some i) :
    t = s := by
  rcases h.cases_head with heq | ⟨s₁, ⟨hnone, -⟩, -⟩
  · exact heq.symm
  · rw [hfind] at hnone
    exact absurd hnone (by simp)

/-- The hole is found in one heap only. -/
lemma Seen.unique {j : ℕ} (h : Seen P ns pageAlign s t)
    (hi : t.findSmallestHole ns pageAlign = some i) (h' : Seen P ns pageAlign s t')
    (hj : t'.findSmallestHole ns pageAlign = some j) : t' = t ∧ j = i := by
  induction h using Relation.ReflTransGen.head_induction_on with
  | refl =>
      obtain rfl := h'.of_found hi
      exact ⟨rfl, Option.some.inj (hj.symm.trans hi)⟩
  | head hstep hrest ih =>
      rcases h'.cases_head with rfl | ⟨s₂, hstep', hrest'⟩
      · rw [hstep.1] at hj
        exact absurd hj (by simp)
      · obtain rfl := Except.ok.inj (hstep.2.symm.trans hstep'.2)
        exact ih hrest'

/-- Where the payload starts in a hole above the first page. -/
lemma nextPage_eq (ha : a < 2 ^ 32) (hlarge : 0x1000 ≤ a) :
    a &&& 0xFFFFF000 ≠ 0 ∧
      add32 (sub32 (sub32 (add32 a 0x1000) (a &&& 0xFFF)) 12) 12 = nextPage a % 2 ^ 32 := by
  have hmask : a &&& 0xFFF = a % 0x1000 := Nat.and_two_pow_sub_one_eq_mod a 12
  have hhigh : a &&& 0xFFFFF000 = a / 0x1000 * 0x1000 :=
    and_highMask (n := a) (m := 20) (k := 12) ha
  have hpage : nextPage a = a / 0x1000 * 0x1000 + 0x1000 := Nat.succ_mul _ _
  rw [hmask, hhigh, hpage]
  simp only [sub32, add32]
  omega

/-- **What a block in the heap says** about the call. -/
lemma InHeap.conditions (h : InHeap s' p size) (hplaced : t.heap.startAddress = s.heap.startAddress)
    (hstart : 0x80000 ≤ s.heap.startAddress) (htop : t.heap.endAddress < 2 ^ 32)
    (hplace : t.place size (add32 size 20) pageAlign i = (p, s')) :
    size + 20 < 2 ^ 32 ∧
      (pageAlign = true → nextPage (t.heap.word t.mem i) + size ≤ t.heap.endAddress) := by
  obtain ⟨a, ha⟩ : ∃ a, t.heap.word t.mem i = a := ⟨_, rfl⟩
  have halt : a < 2 ^ 32 := ha ▸ read32_lt
  obtain ⟨⟨z, hheap⟩, hp⟩ := place_parts ha hplace
  rw [InHeap, hheap] at h
  simp only at h
  refine ⟨by omega, fun halign => ?_⟩
  rw [ha]
  by_cases hlarge : 0x1000 ≤ a
  · obtain ⟨hmask, hvalue⟩ := nextPage_eq halt hlarge
    have hle : nextPage a ≤ 2 ^ 32 := by
      rw [nextPage]
      omega
    rw [if_pos ⟨halign, hmask⟩, hvalue] at hp
    omega
  · have hmask : a &&& 0xFFFFF000 = 0 := by
      have hhigh : a &&& 0xFFFFF000 = a / 0x1000 * 0x1000 :=
        and_highMask (n := a) (m := 20) (k := 12) halt
      omega
    rw [if_neg (by simp [hmask]), add32_of_lt (by omega)] at hp
    omega

end Matanos
